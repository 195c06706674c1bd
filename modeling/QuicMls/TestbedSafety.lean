import QuicMls.DatagramPacking
import QuicMls.TestbedLog

/-! What the testbed keeps while its driver commits, goes dark and reconnects: no commit
the other party lacks is dropped, and every byte on the wire is in one row of the log. -/
namespace QuicMls.TestbedSafety
open BigEndian Groups Preamble CommitHistory Budget DatagramPacking Telemetry AliceDriver AliceRuns TestbedLog
open ReportPipeline hiding step Action honest steady

/-! ### Commits -/

section Commits
variable {GA Message EA : Type} [MlsGroup GA Message EA] [LawfulCommit GA] {GB EB : Type}
  [ExportSecret GB EB] {args : Args} {groupA : GA} {groupB : GB} {final : Testbed GA GB}

/-- In an honest run, through blackouts and lost connections, the driver is never behind
the other party, which is never behind the checkpoint; and every commit the other party
lacks is still in the window that the next contact will send. -/
theorem testbed_safe
    (run : Machine.Reachable (step args) (fun _ action => honest action) (Testbed.start groupA groupB) final) :
    final.driver.epoch = final.pipeline.alice.currentEpoch ∧
      final.pipeline.alice.checkpoint ≤ final.pipeline.bob.localEpoch ∧
      final.pipeline.bob.localEpoch ≤ final.driver.epoch ∧
      ∀ epoch, final.pipeline.bob.localEpoch < epoch → epoch ≤ final.driver.epoch →
        ∃ commit, (epoch, commit) ∈ final.pipeline.alice.windowBytes := by
  have mirrored := epoch_mirrored run
  have path : Machine.Reachable ReportPipeline.step (ReportRefinement.Allowed True False)
      (initial groupA groupB) final.pipeline :=
    pipeline_run (run.mono fun _ _ permitted => ⟨fun _ => permitted, fun never => never.elim⟩)
  obtain ⟨⟨inFlight, follows⟩, ordered, history, represents⟩ := ReportDelivery.followed path
  refine ⟨mirrored, follows.behind, ordered.trans_eq mirrored.symm, fun epoch lacking made => ?_⟩
  have lowest := UInt64.le_iff_toNat_le.mp follows.behind
  have above := UInt64.lt_iff_toNat_lt.mp lacking
  have below := UInt64.le_iff_toNat_le.mp made
  rw [mirrored, represents.current] at below
  -- The entry for an epoch in between is the commit of that place in the history.
  have inside : epoch.toNat - 1 < history.length := by omega
  have shift : final.pipeline.alice.checkpoint.toNat +
      (epoch.toNat - 1 - final.pipeline.alice.checkpoint.toNat) = epoch.toNat - 1 := by omega
  have held : (history.drop final.pipeline.alice.checkpoint.toNat)[epoch.toNat - 1 -
      final.pipeline.alice.checkpoint.toNat]? = some history[epoch.toNat - 1] := by
    rw [List.getElem?_drop, shift, List.getElem?_eq_getElem inside]
  exact ⟨_, (represents.mem_window (lt_of_le_of_lt lowest above) held).2⟩

end Commits

/-- The first commit arrives and is reported, the second is made in the dark. -/
def reportedRun : List AliceDriver.Action :=
  aliceAt 0 [.go, .ready (some 1), .go, .go, .accepted true, .go, .go, .go, .tick false, .go, .go,
    .sendTo fun _ => .ok (), .go, .go, .go] ++
  [.other (.link 0 .spawnSender), .other (.deliver (datagramOf [(1, CounterGroup.commitOf 0)]))] ++
  ReportDelivery.ownSteps.map (fun event => .other (.link 0 event)) ++
  aliceAt 15 [.deadline, .go, .go, .go, .go, .tick false, .go, .go, .go, .go]

theorem testbed_safe_reported : ∃ final,
    Machine.run (step oneBlackout) (Testbed.start CounterGroup.fresh CounterGroup.fresh) reportedRun =
      some final ∧
      final.driver.epoch = final.pipeline.alice.currentEpoch ∧ final.pipeline.alice.checkpoint = 1 ∧
      final.pipeline.alice.checkpoint ≤ final.pipeline.bob.localEpoch ∧ final.pipeline.bob.localEpoch = 1 ∧
      final.driver.epoch = 2 ∧
      ∃ commit, (2, commit) ∈ final.pipeline.alice.windowBytes := by
  have view : (Machine.run (step oneBlackout) (Testbed.start CounterGroup.fresh CounterGroup.fresh)
      reportedRun).map (fun final =>
        (final.pipeline.alice.checkpoint, final.pipeline.bob.localEpoch, final.driver.epoch)) =
        some (1, 1, 2) := by
    decide +kernel
  obtain ⟨final, ran, same⟩ := Option.map_eq_some_iff.mp view
  simp only [Prod.mk.injEq] at same
  obtain ⟨trimmed, applied, made⟩ := same
  have run := @Machine.reachable_of_run _ _ _ (fun _ action => honest action) _ _ _
    (by simp [reportedRun, aliceAt, ReportDelivery.ownSteps, honest, ReportPipeline.honest]) ran
  obtain ⟨mirrored, reported, -, kept⟩ := testbed_safe run
  rw [applied, made] at kept
  exact ⟨final, ran, mirrored, trimmed, reported, applied, made, kept 2 (by decide) (by decide)⟩

/-! ### Bytes -/

/-- Bytes sent that have no row yet. -/
def unloggedBytes : Point → UInt64
  | .logCpu _ _ _ bytes => bytes
  | .logNet _ _ bytes => bytes
  | _ => 0

def loggedBytes (rows : List Row) : UInt64 := UInt64.ofNat (total (fun row => row.bytes.toNat) rows)

theorem loggedBytes_concat (rows : List Row) (row : Row) :
    loggedBytes (rows ++ [row]) = loggedBytes rows + row.bytes := by
  rw [loggedBytes, total_append, UInt64.ofNat_add, total_cons, total_nil, Nat.add_zero, UInt64.ofNat_toNat]
  rfl

structure BytesSound {GA GB : Type} (driver : Driver) (pipeline : Pipeline GA GB) : Prop where
  counted : pipeline.socket.preambleBytesSent = UInt64.ofNat (wireBytes pipeline.datagrams)
  logged : pipeline.socket.preambleBytesSent = loggedBytes driver.rows + unloggedBytes driver.point

section Bytes
variable {GA GB EA EB : Type} [ExportSecret GA EA] [ExportSecret GB EB] {args : Args} {groupA : GA} {groupB : GB}
  {pipeline next : Pipeline GA GB} {final : Testbed GA GB}

/-- What a window that went out adds to the socket's count and to the wire. -/
theorem sendWindow_ok {answer : Nat → Except String Unit} {bytes : UInt64}
    (sent : sendWindow args pipeline answer = (.ok bytes, some next)) :
    ∃ more, next.datagrams = pipeline.datagrams ++ more ∧ bytes = UInt64.ofNat (wireBytes more) ∧
      next.socket.preambleBytesSent = pipeline.socket.preambleBytesSent + bytes := by
  have succeeded := congrArg Prod.fst sent
  obtain ⟨counted, added⟩ := sendPreamble_total _ _ _ _ succeeded
  obtain rfl := Option.some.inj (sendWindow_step sent)
  exact ⟨_, rfl, counted, added⟩

theorem BytesSound.sends {driver driver' : Driver} {answer : Nat → Except String Unit} {bytes : UInt64}
    (sound : BytesSound driver pipeline) (sent : sendWindow args pipeline answer = (.ok bytes, some next))
    (quiet : unloggedBytes driver.point = 0)
    (logged : loggedBytes driver'.rows + unloggedBytes driver'.point = loggedBytes driver.rows + bytes) :
    BytesSound driver' next := by
  obtain ⟨more, wire, counted, added⟩ := sendWindow_ok sent
  constructor
  · have sum : wireBytes (pipeline.datagrams ++ more) = wireBytes pipeline.datagrams + wireBytes more :=
      total_append _ _
    rw [added, sound.counted, wire, sum, UInt64.ofNat_add, counted]
  · rw [added, sound.logged, quiet, UInt64.add_zero, logged]

theorem BytesSound.frame {driver driver' : Driver} (sound : BytesSound driver pipeline)
    (socket : next.socket = pipeline.socket) (datagrams : next.datagrams = pipeline.datagrams)
    (logged : loggedBytes driver'.rows + unloggedBytes driver'.point =
      loggedBytes driver.rows + unloggedBytes driver.point) : BytesSound driver' next :=
  ⟨by rw [socket, datagrams, sound.counted], by rw [socket, sound.logged, logged]⟩

/-- A row takes its bytes out of what has no row yet. -/
theorem BytesSound.writes {driver driver' : Driver} {row : Row} (sound : BytesSound driver pipeline)
    (socket : next.socket = pipeline.socket) (datagrams : next.datagrams = pipeline.datagrams)
    (after : driver'.rows = driver.rows ++ [row])
    (paid : row.bytes + unloggedBytes driver'.point = unloggedBytes driver.point) :
    BytesSound driver' next := by
  refine sound.frame socket datagrams ?_
  rw [after, loggedBytes_concat, UInt64.add_assoc, paid]

theorem logs_bytes {epoch named bytes : UInt64} {point after : Point} {event : Event}
    (logs : Logs epoch point event named bytes after) : bytes + unloggedBytes after = unloggedBytes point := by
  cases logs with
  | cpu loop cpu net sent => exact UInt64.zero_add _
  | net loop net sent => exact UInt64.add_zero _
  | _ => rfl

theorem confirms_bytes {point : Point} {event : Event} (confirms : Confirms point event) :
    unloggedBytes point = 0 := by
  cases confirms <;> rfl

theorem silent_bytes {now : Nat} {point after : Point} (moves : Silent args now point after) :
    unloggedBytes after = unloggedBytes point ∨ after = .failed := by
  cases moves with
  | fail point => exact Or.inr rfl
  | _ => exact Or.inl rfl

theorem moved_bytes {now timestamp : Nat} {driver driver' : Driver}
    (moved : Moved args now timestamp driver pipeline driver' next) (lives : driver'.point ≠ .failed)
    (sound : BytesSound driver pipeline) : BytesSound driver' next := by
  cases moved with
  | silent moves =>
      rcases silent_bytes moves with same | dead
      · exact sound.frame rfl rfl (congrArg _ same)
      · exact absurd dead lives
  | logged latency logs => exact sound.writes rfl rfl rfl (logs_bytes logs)
  | @contact start waits lastReadySeen =>
      refine sound.frame rfl rfl (congrArg _ ?_)
      rw [waits]
      dsimp only
      split <;> rfl
  | opened opens taken =>
      have kept := untouched_of_connect taken
      refine sound.frame kept.socket kept.datagrams (congrArg _ ?_)
      generalize driver.point = point at opens
      cases opens <;> rfl
  | connected latency confirms taken =>
      have kept := untouched_of_link taken
      exact sound.writes kept.socket kept.datagrams rfl (confirms_bytes confirms).symm
  | sendFailed sent => exact absurd rfl lives
  | @embedded t0 answer bytes after embeds sent =>
      refine sound.sends sent (by rw [embeds]; rfl) ?_
      change loggedBytes (driver.rows ++ [_]) + 0 = _
      rw [loggedBytes_concat, UInt64.add_zero]
  | @committed loop after commits taken =>
      obtain ⟨-, socket, datagrams⟩ := createCommit_counts taken
      refine sound.frame socket datagrams (congrArg _ ?_)
      rw [commits]
      change unloggedBytes (Loop.committed loop _) = 0
      rw [Loop.committed]
      cases loop.phase <;> rfl
  | @sent loop cpu answer bytes after sends sent =>
      exact sound.sends sent (by rw [sends]; rfl) rfl
  | quit leaves taken =>
      have kept := untouched_of_link taken
      exact sound.writes kept.socket kept.datagrams rfl (by rw [leaves]; rfl)
  | dark leaves taken =>
      have kept := untouched_of_link taken
      exact sound.writes kept.socket kept.datagrams rfl (by rw [leaves]; rfl)

/-- Once failed the driver does nothing any more. -/
theorem moved_lives {now timestamp : Nat} {driver driver' : Driver}
    (moved : Moved args now timestamp driver pipeline driver' next) (lives : driver'.point ≠ .failed) :
    driver.point ≠ .failed := by
  intro dead
  cases moved with
  | silent moves =>
      rw [dead] at moves
      cases moves
      exact lives rfl
  | logged latency logs => rw [dead] at logs; cases logs
  | contact waits lastReadySeen => rw [dead] at waits; cases waits
  | opened opens taken => rw [dead] at opens; cases opens
  | connected latency confirms taken => rw [dead] at confirms; cases confirms
  | sendFailed sent => exact lives rfl
  | embedded embeds sent => rw [dead] at embeds; cases embeds
  | committed commits taken => rw [dead] at commits; cases commits
  | sent sends sent => rw [dead] at sends; cases sends
  | quit leaves taken => rw [dead] at leaves; cases leaves
  | dark leaves taken => rw [dead] at leaves; cases leaves

/-- Until the driver fails, the bytes column of her log is what the socket counted, less
the bytes of a commit whose row is still to come, and that is what went on the wire,
whatever else arrived or was injected. -/
theorem bytes_logged (run : Machine.Reachable (step args) (fun _ _ => True) (Testbed.start groupA groupB) final)
    (lives : final.driver.point ≠ .failed) :
    final.pipeline.socket.preambleBytesSent = UInt64.ofNat (wireBytes final.pipeline.datagrams) ∧
      final.pipeline.socket.preambleBytesSent =
        loggedBytes final.driver.rows + unloggedBytes final.driver.point := by
  have sound : final.driver.point ≠ .failed → BytesSound final.driver final.pipeline := by
    refine @Machine.Reachable.invariant _ _ _ _ _ _
      (fun testbed => testbed.driver.point ≠ .failed → BytesSound testbed.driver testbed.pipeline) run
      (fun _ => ⟨rfl, rfl⟩) fun before action after ih _ taken lives => ?_
    rcases step_cases taken with ⟨_, _, _, -, -, moved⟩ | ⟨inner, -, same, -, kept⟩
    · exact moved_bytes moved lives (ih (moved_lives moved lives))
    · rw [same] at lives ⊢
      exact (ih lives).frame kept.socket kept.datagrams rfl
  exact ⟨(sound lives).counted, (sound lives).logged⟩

end Bytes

theorem bytes_logged_one_blackout : ∃ final,
    Machine.run (step oneBlackout) (Testbed.start CounterGroup.fresh CounterGroup.fresh) oneBlackoutRun =
      some final ∧ final.pipeline.socket.preambleBytesSent = loggedBytes final.driver.rows := by
  obtain ⟨final, ran, returned, -⟩ := oneBlackoutRun_returns
  have run := @Machine.reachable_of_run _ _ _ (fun _ _ => True) _ _ _ (fun _ _ _ => trivial) ran
  have logged := (bytes_logged run (by simp [returned])).2
  rw [returned] at logged
  exact ⟨final, ran, logged.trans (UInt64.add_zero _)⟩

end QuicMls.TestbedSafety
