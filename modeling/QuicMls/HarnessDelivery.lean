import QuicMls.HarnessTasks

/-! Both drivers on one connection. Unless its stream breaks, its two tasks are there and
alive, and bring the sender's checkpoint to the receiver's epoch. -/
namespace QuicMls.HarnessDelivery
open BigEndian Groups Control ReportSender ReportRefinement ReportDelivery BobDriver Harness HarnessTasks
open AliceDriver (Args Testbed isDrivers)
open ReportPipeline hiding step Action honest steady

/-! ### What stays of a connection -/

/-- Read to the end of its stream, or still reading. -/
def Unbroken (link : Link) : Prop := link.running = true ∨ link.closed = true

section Links
variable {GA GB EA EB : Type} [ExportSecret GA EA] [ExportSecret GB EB] {pipeline pipeline' : Pipeline GA GB}

theorem link_kept {action : ReportPipeline.Action} (taken : ReportPipeline.step pipeline action = some pipeline')
    {conn : Nat} {link : Link} (found : pipeline.links[conn]? = some link) :
    ∃ link', pipeline'.links[conn]? = some link' ∧ (link' = link ∨ ∃ event alice, action = .link conn event ∧
      Link.Moved pipeline.bob.epochTx pipeline.alice link event alice link') := by
  cases Pipeline.moved_of_step taken with
  | connected =>
      refine ⟨link, ?_, Or.inl rfl⟩
      dsimp only
      rw [List.getElem?_append_left (List.getElem?_eq_some_iff.mp found).1]
      exact found
  | @linked index event before next alice here moved =>
      by_cases same : index = conn
      · subst same
        obtain rfl := Option.some.inj (found.symm.trans here)
        exact ⟨next, List.getElem?_set_self (List.getElem?_eq_some_iff.mp found).1,
          Or.inr ⟨event, alice, rfl, moved⟩⟩
      · exact ⟨link, (List.getElem?_set_ne same).trans found, Or.inl rfl⟩
  | _ => exact ⟨link, found, Or.inl rfl⟩

/-- The receiver's task has been spawned. -/
def Sending (pipeline : Pipeline GA GB) (conn : Nat) : Prop :=
  ∃ link, pipeline.links[conn]? = some link ∧ link.sending = true

/-- The sender's task has been spawned, and nothing but the end of the stream stopped it. -/
def Receiving (pipeline : Pipeline GA GB) (conn : Nat) : Prop :=
  ∃ link, pipeline.links[conn]? = some link ∧ link.receiving = true ∧ Unbroken link

/-- No task has stopped that was never spawned. -/
def Unspawned (pipeline : Pipeline GA GB) : Prop :=
  ∀ (conn : Nat) (link : Link), pipeline.links[conn]? = some link → link.receiving = false → link.running = true

/-- What is written on the streams are reports. -/
def Sound (pipeline : Pipeline GA GB) : Prop :=
  ∃ Known Acted, ∀ link ∈ pipeline.links, LinkSound pipeline.bob.epochTx Known Acted True link

variable {action : ReportPipeline.Action} {conn : Nat}

theorem sending_kept (taken : ReportPipeline.step pipeline action = some pipeline')
    (sending : Sending pipeline conn) : Sending pipeline' conn := by
  obtain ⟨link, found, spawned⟩ := sending
  obtain ⟨link', there, rfl | ⟨event, alice, -, moved⟩⟩ := link_kept taken found
  · exact ⟨link', there, spawned⟩
  · refine ⟨link', there, ?_⟩
    cases moved with
    | spawnSender absent => rfl
    | _ => exact spawned

/-- A task stops at the end of its stream or is aborted: what it reads are reports. -/
theorem receiving_kept (sound : Sound pipeline) (taken : ReportPipeline.step pipeline action = some pipeline')
    (quiet : action ≠ .link conn .abortReceiver) (receiving : Receiving pipeline conn) :
    Receiving pipeline' conn := by
  obtain ⟨Known, Acted, links⟩ := sound
  obtain ⟨link, found, spawned, unbroken⟩ := receiving
  obtain ⟨link', there, rfl | ⟨event, alice, rfl, moved⟩⟩ := link_kept taken found
  · exact ⟨link', there, spawned, unbroken⟩
  · refine ⟨link', there, ?_⟩
    cases moved with
    | closed => exact ⟨spawned, Or.inr rfl⟩
    | spawnReceiver absent => exact ⟨rfl, unbroken⟩
    | stopped _ stuck final =>
        rcases final with closed | bad
        · exact ⟨spawned, Or.inr closed⟩
        · exact absurd bad (unread_good (links link (List.mem_of_getElem? found)))
    | aborted => exact absurd rfl quiet
    | _ => exact ⟨spawned, unbroken⟩

theorem receiving_spawned (unspawned : Unspawned pipeline)
    (taken : ReportPipeline.step pipeline (.link conn .spawnReceiver) = some pipeline') :
    Receiving pipeline' conn := by
  obtain ⟨link, link', alice, here, there, moved, -⟩ := link_taken taken
  cases moved with
  | spawnReceiver absent => exact ⟨_, there, rfl, Or.inl (unspawned conn link here absent)⟩

theorem unspawned_kept (unspawned : Unspawned pipeline)
    (taken : ReportPipeline.step pipeline action = some pipeline')
    (quiet : ∀ conn, action = .link conn .abortReceiver → Receiving pipeline conn) : Unspawned pipeline' := by
  intro conn link' found absent
  rcases link_cases taken found with same | ⟨-, rfl⟩ | ⟨event, link, alice, rfl, here, moved⟩
  · exact unspawned conn link' same absent
  · rfl
  · cases moved with
    | spawnReceiver _ => cases absent
    | stopped spawned stuck final => exact absurd (spawned.symm.trans absent) (by decide)
    | aborted =>
        obtain ⟨other, found, spawned, -⟩ := quiet conn rfl
        obtain rfl := Option.some.inj (found.symm.trans here)
        exact absurd (spawned.symm.trans absent) (by decide)
    | _ => exact unspawned conn link here absent

theorem closed_kept (taken : ReportPipeline.step pipeline action = some pipeline')
    (goes : action ≠ .dropEpochTx) :
    pipeline'.bob.epochTx.closed = pipeline.bob.epochTx.closed := by
  have received (datagram : Bytes) :
      (pipeline.bob.receive datagram).epochTx.closed = pipeline.bob.epochTx.closed := by
    rcases Preamble.demultiplex_cases sink datagram pipeline.bob with ⟨same, -⟩ | ⟨window, given, -⟩
    · rw [Bob.receive, same]
    · rw [Bob.receive, given, sink]
      dsimp only
      split <;> rfl
  cases Pipeline.moved_of_step taken with
  | delivered sent => exact received _
  | injected datagram => exact received datagram
  | dropped => exact absurd rfl goes
  | _ => rfl

end Links

/-! ### The drivers and their tasks -/

structure Attached {GA GB : Type} (parties : Parties GA GB) : Prop where
  sending : ∀ conn, parties.bob.point = .closed conn → Sending parties.testbed.pipeline conn
  receiving : phaseAt parties.testbed.driver.point = some .online →
    Receiving parties.testbed.pipeline parties.testbed.driver.conn
  unspawned : Unspawned parties.testbed.pipeline
  published : parties.testbed.pipeline.bob.epochTx.closed = true →
    parties.bob.point = .returned ∨ parties.bob.point = .failed

section Drivers
variable {GA GB EA EB : Type} [ExportSecret GA EA] [ExportSecret GB EB] {args : Args} {now timestamp : Nat}
  {pipeline pipeline' : Pipeline GA GB}

/-- The sender's driver aborts a task only where she is online with it. -/
theorem alice_action {driver driver' : AliceDriver.Driver}
    (moved : AliceRuns.Moved args now timestamp driver pipeline driver' pipeline') :
    pipeline' = pipeline ∨ ∃ action, ReportPipeline.step pipeline action = some pipeline' ∧
      isDrivers action = true ∧ ∀ conn, action = .link conn .abortReceiver →
        conn = driver.conn ∧ phaseAt driver.point = some .online ∧ phaseAt driver'.point ≠ some .online := by
  cases moved with
  | silent moves => exact Or.inl rfl
  | logged latency logs => exact Or.inl rfl
  | contact waits lastReadySeen => exact Or.inl rfl
  | opened opens taken => exact Or.inr ⟨_, taken, rfl, fun conn same => by cases same⟩
  | connected latency confirms taken => exact Or.inr ⟨_, taken, rfl, fun conn same => by cases same⟩
  | sendFailed sent => exact Or.inr ⟨_, AliceRuns.sendWindow_step sent, rfl, fun conn same => by cases same⟩
  | embedded embeds sent => exact Or.inr ⟨_, AliceRuns.sendWindow_step sent, rfl, fun conn same => by cases same⟩
  | committed commits taken => exact Or.inr ⟨_, taken, rfl, fun conn same => by cases same⟩
  | sent sends sent => exact Or.inr ⟨_, AliceRuns.sendWindow_step sent, rfl, fun conn same => by cases same⟩
  | quit leaves taken =>
      refine Or.inr ⟨_, taken, rfl, fun conn same => ?_⟩
      cases same
      exact ⟨rfl, by rw [leaves]; rfl, by simp [AliceDriver.Driver.row, phaseAt]⟩
  | dark leaves taken =>
      refine Or.inr ⟨_, taken, rfl, fun conn same => ?_⟩
      cases same
      exact ⟨rfl, by rw [leaves]; rfl, by simp [AliceDriver.Driver.row, phaseAt]⟩

/-- She is online where she was, or from the moment she spawns the task. -/
theorem alice_online {driver driver' : AliceDriver.Driver}
    (moved : AliceRuns.Moved args now timestamp driver pipeline driver' pipeline')
    (online : phaseAt driver'.point = some .online) : driver'.conn = driver.conn ∧
      (phaseAt driver.point = some .online ∨
        ReportPipeline.step pipeline (.link driver.conn .spawnReceiver) = some pipeline') := by
  cases moved with
  | silent moves =>
      rcases silent_phase moves with dead | same
      · rw [AliceDriver.Driver.goto, dead] at online
        cases online
      · exact ⟨rfl, Or.inl (same.symm.trans online)⟩
  | logged latency logs =>
      refine ⟨rfl, Or.inl ?_⟩
      change phaseAt _ = _ at online
      generalize driver.point = point at logs
      cases logs <;> first | exact online | cases online
  | contact waits lastReadySeen =>
      dsimp only at online
      split at online <;> cases online
  | opened opens taken =>
      change phaseAt _ = _ at online
      generalize driver.point = point at opens
      cases opens <;> cases online
  | connected latency confirms taken => exact ⟨rfl, Or.inr taken⟩
  | sendFailed sent => cases online
  | embedded embeds sent => cases online
  | @committed loop after commits taken =>
      refine ⟨rfl, Or.inl ?_⟩
      rw [commits]
      change phaseAt (AliceRuns.Loop.committed loop _) = _ at online
      rw [AliceRuns.Loop.committed] at online
      cases phase : loop.phase with
      | online => simp [phaseAt, phase]
      | blackout => simp [phase, phaseAt] at online
  | sent sends sent => exact ⟨rfl, Or.inl (by rw [sends]; exact online)⟩
  | quit leaves taken => cases online
  | dark leaves taken => cases online

theorem bob_closed {driver driver' : Driver} {conn : Nat}
    (moved : BobRuns.Moved args now timestamp driver pipeline driver' pipeline')
    (here : driver'.point = .closed conn) :
    ReportPipeline.step pipeline (.link conn .spawnSender) = some pipeline' := by
  cases moved with
  | silent moves =>
      change _ = _ at here
      generalize driver.point = point at moves
      cases moves <;> cases here
  | logged latency logs =>
      generalize driver.point = point at logs
      cases logs <;> cases here
  | contact waits => cases here
  | incoming keys waits holds =>
      dsimp only at here
      split at here <;> cases here
  | reused waits spent => cases here
  | spawned waits taken =>
      cases here
      exact taken
  | aborted waits leaves taken =>
      rcases leaves with rfl | rfl <;> cases here
  | returned waits taken => cases here

theorem sending_spawned {conn : Nat}
    (taken : ReportPipeline.step pipeline (.link conn .spawnSender) = some pipeline') :
    Sending pipeline' conn := by
  obtain ⟨link, link', alice, -, there, moved, -⟩ := link_taken taken
  cases moved with
  | spawnSender absent => exact ⟨_, there, rfl⟩

/-- The channel is closed when the driver returns. -/
theorem bob_published {driver driver' : Driver}
    (moved : BobRuns.Moved args now timestamp driver pipeline driver' pipeline')
    (before : pipeline.bob.epochTx.closed = true → driver.point = .returned ∨ driver.point = .failed)
    (closed : pipeline'.bob.epochTx.closed = true) : driver'.point = .returned ∨ driver'.point = .failed := by
  have stays (action : ReportPipeline.Action) (taken : ReportPipeline.step pipeline action = some pipeline')
      (goes : action ≠ .dropEpochTx) : driver.point = .returned ∨ driver.point = .failed :=
    before ((closed_kept taken goes).symm.trans closed)
  cases moved with
  | silent moves =>
      have ended := before closed
      generalize driver.point = point at moves ended
      cases moves with
      | fail point => exact Or.inr rfl
      | _ => rcases ended with here | here <;> cases here
  | logged latency logs =>
      have ended := before closed
      generalize driver.point = point at logs ended
      cases logs <;> rcases ended with here | here <;> cases here
  | contact waits => rcases before closed with here | here <;> cases waits.symm.trans here
  | incoming keys waits holds => rcases before closed with here | here <;> cases waits.symm.trans here
  | reused waits spent => rcases before closed with here | here <;> cases waits.symm.trans here
  | spawned waits taken =>
      rcases stays _ taken (by simp) with here | here <;> cases waits.symm.trans here
  | aborted waits leaves taken =>
      rcases stays _ taken (by simp) with here | here <;> cases waits.symm.trans here
  | returned waits taken => exact Or.inl rfl

end Drivers

section Runs
variable {GA GB EA EB : Type} [ExportSecret GA EA] [ExportSecret GB EB] {argsA argsB : Args} {groupA : GA}
  {groupB : GB} {before after final : Parties GA GB} {allowed : Parties GA GB → Harness.Action → Prop}

theorem sound_of_run
    (run : Machine.Reachable (Harness.step argsA argsB) allowed (Parties.start groupA groupB) final) :
    Sound final.testbed.pipeline := by
  have path := pipeline_run (run.mono fun _ action _ => show False → honest action from fun never => never.elim)
  obtain ⟨inFlight, -, follows⟩ := @follows_of_run _ _ _ _ _ _ False False True groupA groupB _
    (fun _ _ never => never.elim) path
  exact ⟨_, _, follows.links⟩

theorem attached_step {action : Harness.Action} (sound : Sound before.testbed.pipeline)
    (attached : Attached before) (taken : Harness.step argsA argsB before action = some after) :
    Attached after := by
  obtain ⟨sending, receiving, unspawned, published⟩ := attached
  rcases step_cases taken with ⟨_, _, _, -, -, same, moved⟩ | ⟨_, _, _, -, same, moved⟩ |
    ⟨inner, -, theirs, same, moved⟩
  · have moved := alice_taken moved
    rcases alice_action moved with stays | ⟨inner, taken, hers, aborts⟩
    · refine ⟨?_, fun online => ?_, ?_, ?_⟩
      · rw [same, stays]
        exact sending
      · obtain ⟨here, was | spawned⟩ := alice_online moved online
        · rw [stays, here]
          exact receiving was
        · rw [here]
          exact receiving_spawned unspawned spawned
      · rw [stays]
        exact unspawned
      · rw [same, stays]
        exact published
    · refine ⟨fun conn here => ?_, fun online => ?_, ?_, fun closed => ?_⟩
      · rw [same] at here
        exact sending_kept taken (sending conn here)
      · obtain ⟨here, was | spawned⟩ := alice_online moved online
        · rw [here]
          refine receiving_kept sound taken (fun aborted => ?_) (receiving was)
          exact (aborts _ aborted).2.2 online
        · rw [here]
          exact receiving_spawned unspawned spawned
      · refine unspawned_kept unspawned taken fun conn aborted => ?_
        obtain ⟨rfl, online, -⟩ := aborts conn aborted
        exact receiving online
      · rw [same]
        refine published ?_
        rw [← closed_kept taken ?_]
        · exact closed
        · rintro rfl
          cases hers
  · refine ⟨fun conn here => ?_, fun online => ?_, ?_, fun closed => ?_⟩
    · exact sending_spawned (bob_closed moved here)
    · rw [same] at online ⊢
      rcases moved_pipeline moved with stays | ⟨inner, taken, free, -⟩
      · rw [stays]
        exact receiving online
      · refine receiving_kept sound taken ?_ (receiving online)
        rintro rfl
        cases free
    · rcases moved_pipeline moved with stays | ⟨inner, taken, free, -⟩
      · rw [stays]
        exact unspawned
      · refine unspawned_kept unspawned taken ?_
        rintro conn rfl
        cases free
    · exact bob_published moved published closed
  · obtain ⟨free, driver, moved⟩ := network_taken moved
    refine ⟨fun conn here => ?_, fun online => ?_, ?_, fun closed => ?_⟩
    · rw [same] at here
      exact sending_kept moved (sending conn here)
    · rw [driver] at online ⊢
      refine receiving_kept sound moved ?_ (receiving online)
      rintro rfl
      cases free
    · refine unspawned_kept unspawned moved ?_
      rintro conn rfl
      cases free
    · rw [same]
      refine published ?_
      rw [← closed_kept moved ?_]
      · exact closed
      · rintro rfl
        cases theirs

theorem attached_of_run
    (run : Machine.Reachable (Harness.step argsA argsB) allowed (Parties.start groupA groupB) final) :
    Attached final := by
  induction run with
  | start =>
      constructor
      · intro conn here
        cases here
      · intro online
        cases online
      · intro conn link found
        cases found
      · intro closed
        cases closed
  | next action path _ taken ih => exact attached_step (sound_of_run path) ih taken

/-- Steps of one connection leave the drivers. -/
theorem pipeline_of_network {conn : Nat} {events : List LinkEvent}
    (ran : Machine.run (Harness.step argsA argsB) before (events.map fun event => .network (.link conn event)) =
      some after) :
    after.bob = before.bob ∧ after.testbed.driver = before.testbed.driver ∧
      Machine.run ReportPipeline.step before.testbed.pipeline (events.map (Action.link conn)) =
        some after.testbed.pipeline := by
  induction events generalizing before with
  | nil =>
      cases ran
      exact ⟨rfl, rfl, rfl⟩
  | cons event rest ih =>
      obtain ⟨middle, taken, later⟩ := Machine.run_cons_iff.mp ran
      obtain ⟨bob, driver, moved⟩ := ih later
      rcases step_cases taken with ⟨_, _, _, same, -⟩ | ⟨_, _, _, same, -⟩ | ⟨inner, same, -, kept, taken⟩
      · cases same
      · cases same
      · cases same
        obtain ⟨-, stays, taken⟩ := network_taken taken
        exact ⟨bob.trans kept, driver.trans stays, Machine.run_cons_iff.mpr ⟨_, taken, moved⟩⟩

/-- The harness lets a connection take every step of its own. -/
theorem network_isSome {conn : Nat} {event : LinkEvent} (own : Own event) :
    (Harness.step argsA argsB before (.network (.link conn event))).isSome =
      (ReportPipeline.step before.testbed.pipeline (.link conn event)).isSome := by
  have nobodys : isBobs (.link conn event) = false ∧ isDrivers (.link conn event) = false := by
    match event, own with
    | .sender .run, _ => exact ⟨rfl, rfl⟩
    | .sender (.take _), _ => exact ⟨rfl, rfl⟩
    | .deliver _, _ => exact ⟨rfl, rfl⟩
    | .poll, _ => exact ⟨rfl, rfl⟩
  simp only [Harness.step, AliceDriver.step, nobodys.1, nobodys.2, Bool.false_eq_true, if_false,
    Option.isSome_map]

end Runs

section Delivery
variable {GA Message EA : Type} [MlsGroup GA Message EA] [LawfulCommit GA] {GB EB : Type}
  [ExportSecret GB EB] {argsA argsB : Args} {groupA : GA} {groupB : GB} {before after : Parties GA GB}

/-- While both drivers are on one connection and its stream has not broken, the steps of
the connection alone come to an end, and then the sender has trimmed all that the receiver
has applied: the next window is what he lacks. -/
theorem harness_drains {conn : Nat} {link : Link} {events : List LinkEvent}
    (run : Machine.Reachable (Harness.step argsA argsB) (fun _ action => honest action)
      (Parties.start groupA groupB) before)
    (reports : before.bob.point = .closed conn) (same : before.testbed.driver.conn = conn)
    (online : phaseAt before.testbed.driver.point = some .online)
    (found : before.testbed.pipeline.links[conn]? = some link) (opened : link.closed = false)
    (writes : link.sender.point ≠ .ended) (own : ∀ event ∈ events, Own event)
    (ran : Machine.run (Harness.step argsA argsB) before (events.map fun event => .network (.link conn event)) =
      some after) :
    events.length ≤ rank before.testbed.pipeline.bob.epochTx link ∧
      after.testbed.pipeline.bob = before.testbed.pipeline.bob ∧
      ((∃ event, Own event ∧ (Harness.step argsA argsB after (.network (.link conn event))).isSome) ∨
        (Synced after.testbed.pipeline.alice before.testbed.pipeline.bob.localEpoch ∧
          after.testbed.driver.epoch = after.testbed.pipeline.alice.currentEpoch)) := by
  obtain ⟨sending, receiving, -, published⟩ := attached_of_run run
  have fair := run.mono fun _ action permitted => show True → honest action from fun _ => permitted
  have live : Live before.testbed.pipeline.bob.epochTx link := by
    obtain ⟨_, here, spawned⟩ := sending conn reports
    obtain rfl := Option.some.inj (here.symm.trans found)
    obtain ⟨_, there, receives, unbroken⟩ := receiving online
    rw [same] at there
    obtain rfl := Option.some.inj (there.symm.trans found)
    refine ⟨Bool.eq_false_iff.mpr fun closed => ?_, spawned, writes, opened, receives, ?_⟩
    · rcases published closed with ended | ended <;> cases reports.symm.trans ended
    · exact unbroken.resolve_right fun closed => by simp [opened] at closed
  obtain ⟨-, driver, moved⟩ := pipeline_of_network ran
  obtain ⟨reached, kept, last, there, alive, fits⟩ := own_run (pipeline_run fair) found live own moved
  refine ⟨by omega, kept, ?_⟩
  by_cases more : ∃ event, Own event ∧ (ReportPipeline.step after.testbed.pipeline (.link conn event)).isSome
  · obtain ⟨event, mine, moves⟩ := more
    exact Or.inl ⟨event, mine, (network_isSome mine).trans moves⟩
  · right
    have synced := synced_of_stuck reached there alive fun event mine moves => more ⟨event, mine, moves⟩
    have further := run.trans (Machine.reachable_of_run _ _ (fun _ action member => by
      obtain ⟨event, -, rfl⟩ := List.mem_map.mp member
      exact trivial) ran)
    refine ⟨by rwa [← kept], ?_⟩
    exact AliceRuns.epoch_mirrored (testbed_run (further.mono fun _ action permitted =>
      show True → honest action from fun _ => permitted))

end Delivery

/-- The commit has arrived and is not reported yet. -/
def commitApplied : List Harness.Action :=
  HarnessLog.firstContact ++ HarnessLog.aliceAt 0 [.tick false, .go, .go, .sendTo fun _ => .ok (), .go, .go] ++
  [.network (.deliver (Preamble.datagramOf [(1, CounterGroup.commitOf 0)]))]

theorem harness_drains_commit_applied : ∃ before after,
    Machine.run (Harness.step TestbedLog.oneBlackout TestbedLog.oneBlackout)
      (Parties.start CounterGroup.fresh CounterGroup.fresh) commitApplied = some before ∧
      Machine.run (Harness.step TestbedLog.oneBlackout TestbedLog.oneBlackout) before
        (ownSteps.map fun event => .network (.link 0 event)) = some after ∧
      before.testbed.pipeline.bob.localEpoch = 1 ∧ before.testbed.pipeline.alice.checkpoint = 0 ∧
      ownSteps.length ≤ rank before.testbed.pipeline.bob.epochTx freshLink ∧
      Synced after.testbed.pipeline.alice 1 := by
  have view : (Machine.run (Harness.step TestbedLog.oneBlackout TestbedLog.oneBlackout)
      (Parties.start CounterGroup.fresh CounterGroup.fresh) commitApplied).map
        (fun before => ((before.testbed.pipeline.links, before.bob.point, before.testbed.driver.conn,
          phaseAt before.testbed.driver.point), before.testbed.pipeline.bob.localEpoch,
          before.testbed.pipeline.alice.checkpoint,
          (Machine.run (Harness.step TestbedLog.oneBlackout TestbedLog.oneBlackout) before
            (ownSteps.map fun event => .network (.link 0 event))).any fun after =>
              after.testbed.pipeline.links = [reportedLink] ∧
                after.testbed.pipeline.bob.epochTx = { value := 1, version := 1, closed := false })) =
        some (([freshLink], .closed 0, 0, some .online), 1, 0, true) := by
    decide +kernel
  obtain ⟨before, ran, same⟩ := Option.map_eq_some_iff.mp view
  simp only [Prod.mk.injEq] at same
  obtain ⟨⟨links, reports, conn, online⟩, applied, behind, reported⟩ := same
  obtain ⟨after, later, same⟩ := (Option.any_eq_true _ _).mp reported
  obtain ⟨linksAfter, published⟩ := of_decide_eq_true same
  have run := @Machine.reachable_of_run _ _ _ (fun _ action => honest action) _ _ _
    (by simp [commitApplied, HarnessLog.firstContact, HarnessLog.aliceAt, HarnessLog.bobAt, honest,
      ReportPipeline.honest]) ran
  have found : before.testbed.pipeline.links[0]? = some freshLink := by rw [links]; rfl
  obtain ⟨few, -, more | ⟨synced, -⟩⟩ := harness_drains run reports conn online found rfl (by decide)
    (by simp [ownSteps, Own]) later
  · obtain ⟨event, mine, moves⟩ := more
    have there : after.testbed.pipeline.links[0]? = some reportedLink := by rw [linksAfter]; rfl
    rw [network_isSome mine] at moves
    exact absurd moves (by simp [ReportPipeline.step, there, published, reported_stuck mine])
  · rw [applied] at synced
    exact ⟨before, after, ran, later, applied, behind, few, synced⟩

end QuicMls.HarnessDelivery
