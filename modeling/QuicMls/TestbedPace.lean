import QuicMls.TestbedLog

/-! How often the driver commits: her ticker holds the commits of one phase apart, also
where it is late and starts over. -/
namespace QuicMls.TestbedPace
open BigEndian Groups Preamble Telemetry AliceDriver AliceRuns TestbedLog
open ReportPipeline hiding step Action honest steady

/-! ### Phases in a log -/

/-- The rows that the commit loop of a phase writes. -/
def inPhase : Phase → Event → Bool
  | .online, .commitCpu => true
  | .online, .commitNet => true
  | .blackout, .commitOffline => true
  | _, _ => false

/-- Commits at the end of a log, back to where its phase began. -/
def trailing (phase : Phase) (rows : List Row) : Nat :=
  commits (rows.rtakeWhile fun row => inPhase phase row.event)

/-- Where `starts` are the instants at which a phase began, one of them gave it room for
these commits. -/
def Paced (args : Args) (starts : Phase → Nat → Prop) (phase : Phase) (made : Nat) : Prop :=
  made = 0 ∨ ∃ start, starts phase start ∧ (made - 1) * args.commitInterval < args.phaseLength start phase

theorem trailing_concat (phase : Phase) (rows : List Row) (row : Row) :
    trailing phase (rows ++ [row]) =
      if inPhase phase row.event then trailing phase rows + if row.event.isCommit then 1 else 0 else 0 := by
  rw [trailing, List.rtakeWhile_concat]
  split
  · exact commits_concat _ row
  · rfl

theorem trailing_append (phase : Phase) (front streak : List Row)
    (inside : ∀ row ∈ streak, inPhase phase row.event = true) :
    trailing phase (front ++ streak) = trailing phase front + commits streak := by
  induction streak using List.reverseRecOn with
  | nil => rw [List.append_nil]; rfl
  | append_singleton streak row ih =>
      have before := ih fun other member => inside other (List.mem_append_left _ member)
      have last := inside row (List.mem_append_right _ List.mem_cons_self)
      rw [← List.append_assoc, trailing_concat, if_pos last, before, commits_concat, Nat.add_assoc]

/-! ### What holds at each point -/

/-- The loop is in a phase that began when it says and is as long as it says. -/
def Spans (args : Args) (starts : Phase → Nat → Prop) (loop : Loop) : Prop :=
  starts loop.phase loop.start ∧ loop.length = args.phaseLength loop.start loop.phase

/-- The ticker's next instant is as far from the beginning of the phase as the commits
made in it ask for. -/
def Keeps (args : Args) (starts : Phase → Nat → Prop) (clock : Nat) (rows : List Row) : Point → Prop
  | .beginPhase phase => trailing phase rows = 0
  | .startTicker phase start length =>
      trailing phase rows = 0 ∧ start ≤ clock ∧ starts phase start ∧ length = args.phaseLength start phase
  | .loopHead loop =>
      loop.start + trailing loop.phase rows * args.commitInterval ≤ loop.ticker ∧ Spans args starts loop
  | .select loop =>
      loop.start + trailing loop.phase rows * args.commitInterval ≤ loop.ticker ∧ Spans args starts loop
  | .recheck loop =>
      loop.start + trailing loop.phase rows * args.commitInterval ≤ clock ∧
        loop.start + (trailing loop.phase rows + 1) * args.commitInterval ≤ loop.ticker ∧
        Spans args starts loop
  | .commit loop => Due args starts rows loop
  | .send loop _ => loop.phase = .online ∧ Due args starts rows loop
  | .logCpu loop _ _ _ => loop.phase = .online ∧ Due args starts rows loop
  | .logOffline loop => loop.phase = .blackout ∧ Due args starts rows loop
  | .logNet loop _ _ =>
      loop.phase = .online ∧ loop.start + trailing loop.phase rows * args.commitInterval ≤ loop.ticker ∧
        Spans args starts loop
  | _ => True
where
  /-- One more commit is inside the phase. -/
  Due (args : Args) (starts : Phase → Nat → Prop) (rows : List Row) (loop : Loop) : Prop :=
    trailing loop.phase rows * args.commitInterval < loop.length ∧
      loop.start + (trailing loop.phase rows + 1) * args.commitInterval ≤ loop.ticker ∧
      Spans args starts loop

structure PaceSound (args : Args) (starts : Phase → Nat → Prop) (driver : Driver) : Prop where
  keeps : Keeps args starts driver.clock driver.rows driver.point
  paced : ∀ front, front <+: driver.rows → ∀ phase, Paced args starts phase (trailing phase front)

section Moves
variable {args : Args} {starts : Phase → Nat → Prop} {now timestamp clock : Nat} {rows : List Row}
  {point next : Point}

theorem silent_keeps (moves : Silent args now point next) (later : clock ≤ now)
    (began : ∀ phase length, next = .startTicker phase now length → starts phase now)
    (keeps : Keeps args starts clock rows point) : Keeps args starts now rows next := by
  cases moves with
  | fail point => trivial
  | begin => trivial
  | poll start => trivial
  | phase phase => exact ⟨keeps, le_rfl, began phase _ rfl, rfl⟩
  | ticker phase start length positive =>
      obtain ⟨none, began, within⟩ := keeps
      refine ⟨?_, within⟩
      rw [none]
      dsimp only
      omega
  | enter loop => exact keeps
  | expired loop => trivial
  | tick loop ticker due behind =>
      obtain ⟨spaced, within⟩ := keeps
      refine ⟨spaced.trans due, ?_, within⟩
      dsimp only
      rw [Nat.add_mul]
      omega
  | deadline loop => trivial
  | checked loop inside =>
      obtain ⟨reached, spaced, within⟩ := keeps
      exact ⟨by omega, spaced, within⟩
  | late loop => trivial

/-- A commit whose row is written was due. -/
theorem paced_of_due {loop : Loop} (due : Keeps.Due args starts rows loop) :
    Paced args starts loop.phase (trailing loop.phase rows + 1) := by
  obtain ⟨inside, -, began, long⟩ := due
  exact Or.inr ⟨loop.start, began, inside.trans_eq long⟩

theorem paced_concat {row : Row}
    (paced : ∀ front, front <+: rows → ∀ phase, Paced args starts phase (trailing phase front))
    (last : ∀ phase, Paced args starts phase (trailing phase (rows ++ [row]))) :
    ∀ front, front <+: rows ++ [row] → ∀ phase, Paced args starts phase (trailing phase front) := by
  intro front before phase
  rcases List.prefix_concat_iff.mp before with rfl | inside
  · exact last phase
  · exact paced front inside phase

/-- A row outside both loops begins a phase. -/
theorem trailing_outside {row : Row} (outside : ∀ phase, inPhase phase row.event = false) (phase : Phase) :
    trailing phase (rows ++ [row]) = 0 := by
  rw [trailing_concat, outside phase]
  rfl

theorem paced_outside {row : Row} (outside : ∀ phase, inPhase phase row.event = false) (phase : Phase) :
    Paced args starts phase (trailing phase (rows ++ [row])) :=
  Or.inl (trailing_outside outside phase)

theorem logs_keep {epoch named bytes : UInt64} {row : Row} (logs : Logs epoch point row.event named bytes next)
    (keeps : Keeps args starts clock rows point)
    (paced : ∀ phase, Paced args starts phase (trailing phase rows)) :
    Keeps args starts now (rows ++ [row]) next ∧
      ∀ phase, Paced args starts phase (trailing phase (rows ++ [row])) := by
  generalize wrote : row.event = event at logs
  have outside (other : ∀ phase, inPhase phase event = false) :
      ∀ phase, Paced args starts phase (trailing phase (rows ++ [row])) := paced_outside (wrote ▸ other)
  cases logs with
  | done => exact ⟨trivial, outside fun phase => by cases phase <;> rfl⟩
  | available t0 => exact ⟨trivial, outside fun phase => by cases phase <;> rfl⟩
  | availableAgain t0 since ok => exact ⟨trivial, outside fun phase => by cases phase <;> rfl⟩
  | timedOut t0 since opened => exact ⟨trivial, outside fun phase => by cases phase <;> rfl⟩
  | refused t0 since opened => exact ⟨trivial, outside fun phase => by cases phase <;> rfl⟩
  | blackoutEnd => exact ⟨trivial, outside fun phase => by cases phase <;> rfl⟩
  | cpu loop cpu net sent =>
      obtain ⟨online, due⟩ := keeps
      have made := paced_of_due due
      obtain ⟨-, spaced, within⟩ := due
      rw [online] at made spaced
      have counted : trailing .online (rows ++ [row]) = trailing .online rows + 1 := by
        rw [trailing_concat, wrote]
        rfl
      refine ⟨⟨online, ?_, within⟩, fun phase => ?_⟩
      · rw [online, counted]
        exact spaced
      · cases phase with
        | online => rwa [counted]
        | blackout =>
            rw [trailing_concat, wrote]
            exact Or.inl rfl
  | net loop net sent =>
      obtain ⟨online, spaced, within⟩ := keeps
      rw [online] at spaced
      have same : trailing .online (rows ++ [row]) = trailing .online rows := by
        rw [trailing_concat, wrote]
        rfl
      refine ⟨⟨?_, within⟩, fun phase => ?_⟩
      · rw [online, same]
        exact spaced
      · cases phase with
        | online =>
            rw [same]
            exact paced .online
        | blackout =>
            rw [trailing_concat, wrote]
            exact Or.inl rfl
  | offline loop =>
      obtain ⟨dark, due⟩ := keeps
      have made := paced_of_due due
      obtain ⟨-, spaced, within⟩ := due
      rw [dark] at made spaced
      have counted : trailing .blackout (rows ++ [row]) = trailing .blackout rows + 1 := by
        rw [trailing_concat, wrote]
        rfl
      refine ⟨⟨?_, within⟩, fun phase => ?_⟩
      · rw [dark, counted]
        exact spaced
      · cases phase with
        | online =>
            rw [trailing_concat, wrote]
            exact Or.inl rfl
        | blackout => rwa [counted]

theorem confirms_outside {event : Event} (confirms : Confirms point event) (phase : Phase) :
    inPhase phase event = false := by
  cases confirms <;> cases phase <;> rfl

end Moves

section Runs
variable {GA GB EA EB : Type} [ExportSecret GA EA] [ExportSecret GB EB] {args : Args}
  {starts : Phase → Nat → Prop}

theorem PaceSound.step {now timestamp : Nat} {driver driver' : Driver} {pipeline pipeline' : Pipeline GA GB}
    (sound : PaceSound args starts driver) (later : driver.clock ≤ now)
    (began : ∀ phase length, driver'.point = .startTicker phase now length → starts phase now)
    (moved : Moved args now timestamp driver pipeline driver' pipeline') : PaceSound args starts driver' := by
  obtain ⟨keeps, paced⟩ := sound
  have current := paced driver.rows (List.prefix_refl _)
  cases moved with
  | silent moves => exact ⟨silent_keeps moves later began keeps, paced⟩
  | logged latency logs =>
      obtain ⟨kept, last⟩ :=
        @logs_keep args starts now _ _ _ _ _ _ _ ⟨timestamp, _, _, _, latency⟩ logs keeps current
      exact ⟨kept, paced_concat paced last⟩
  | contact waits lastReadySeen =>
      refine ⟨?_, paced⟩
      dsimp only
      split <;> trivial
  | opened opens taken =>
      refine ⟨?_, paced⟩
      generalize driver.point = point at opens
      cases opens <;> trivial
  | connected latency confirms taken =>
      have outside := confirms_outside confirms
      exact ⟨trailing_outside outside .online, paced_concat paced (paced_outside outside)⟩
  | sendFailed sent => exact ⟨trivial, paced⟩
  | embedded embeds sent =>
      exact ⟨trivial, paced_concat paced (paced_outside fun phase => by cases phase <;> rfl)⟩
  | @committed loop after commits taken =>
      rw [commits] at keeps
      refine ⟨?_, paced⟩
      change Keeps args starts now driver.rows (Loop.committed loop _)
      cases phase : loop.phase <;> simp only [Loop.committed, phase]
      · exact ⟨phase, keeps⟩
      · exact ⟨phase, keeps⟩
  | sent sends sent =>
      rw [sends] at keeps
      exact ⟨keeps, paced⟩
  | quit leaves taken =>
      exact ⟨trivial, paced_concat paced (paced_outside fun phase => by cases phase <;> rfl)⟩
  | dark leaves taken =>
      have outside : ∀ phase, inPhase phase .blackoutStart = false := fun phase => by cases phase <;> rfl
      exact ⟨trailing_outside outside .blackout, paced_concat paced (paced_outside outside)⟩

/-- On its way to `final` the run began a phase at `start`. -/
def Began (args : Args) (groupA : GA) (groupB : GB) (final : Testbed GA GB) (phase : Phase)
    (start : Nat) : Prop :=
  ∃ begun, Machine.Reachable (step args) (fun _ _ => True) (Testbed.start groupA groupB) begun ∧
    Machine.Reachable (step args) (fun _ _ => True) begun final ∧ begun.driver.clock = start ∧
    ∃ length, begun.driver.point = .startTicker phase start length

variable {groupA : GA} {groupB : GB} {middle final : Testbed GA GB}

/-- Every state on the way to `final` is paced by the phases begun on that way. -/
theorem paced_on_the_way
    (run : Machine.Reachable (step args) (fun _ _ => True) (Testbed.start groupA groupB) middle)
    (onwards : Machine.Reachable (step args) (fun _ _ => True) middle final) :
    PaceSound args (Began args groupA groupB final) middle.driver := by
  induction run with
  | start =>
      refine ⟨trivial, fun front before phase => Or.inl ?_⟩
      rw [List.prefix_nil.mp before]
      rfl
  | next action earlier _ taken ih =>
      have sound := ih ((Machine.Reachable.start.next action trivial taken).trans onwards)
      rcases step_cases taken with ⟨now, _, _, -, later, moved⟩ | ⟨inner, -, same, -, -⟩
      · refine sound.step later (fun phase length begins => ?_) moved
        exact ⟨_, earlier.next action trivial taken, onwards, moved_clock moved, length, begins⟩
      · rwa [same]

/-- Anywhere in the log, between two rows of other kinds, the commits of a phase but one
fit, at the commit interval, into the length the phase was given when it began, however
late the ticker was. -/
theorem commits_paced (run : Machine.Reachable (step args) (fun _ _ => True) (Testbed.start groupA groupB) final)
    (phase : Phase) (front streak back : List Row) (split : final.driver.rows = front ++ streak ++ back)
    (inside : ∀ row ∈ streak, inPhase phase row.event = true) :
    commits streak = 0 ∨ ∃ start, Began args groupA groupB final phase start ∧
      (commits streak - 1) * args.commitInterval < args.phaseLength start phase := by
  have sound := paced_on_the_way run .start
  have reached := sound.paced (front ++ streak) (split ▸ List.prefix_append _ _) phase
  rw [trailing_append phase front streak inside] at reached
  rcases reached with none | ⟨start, began, few⟩
  · exact Or.inl (by omega)
  · refine Or.inr ⟨start, began, lt_of_le_of_lt (Nat.mul_le_mul_right _ ?_) few⟩
    omega

end Runs

theorem commits_paced_one_blackout : ∃ final,
    Machine.run (step oneBlackout) (Testbed.start CounterGroup.fresh CounterGroup.fresh) oneBlackoutRun =
      some final ∧ ∃ (streak : List Row) (start : Nat), commits streak = 2 ∧
        Began oneBlackout CounterGroup.fresh CounterGroup.fresh final .online start ∧
        (commits streak - 1) * oneBlackout.commitInterval < oneBlackout.phaseLength start .online := by
  have view : (Machine.run (step oneBlackout) (Testbed.start CounterGroup.fresh CounterGroup.fresh)
      oneBlackoutRun).map (fun final =>
        let streak := (final.driver.rows.drop 2).take 4
        (commits streak, streak.all fun row => inPhase .online row.event)) = some (2, true) := by
    decide +kernel
  obtain ⟨final, ran, same⟩ := Option.map_eq_some_iff.mp view
  obtain ⟨counted, all⟩ := Prod.mk.inj same
  have run := @Machine.reachable_of_run _ _ _ (fun _ _ => True) _ _ _ (fun _ _ _ => trivial) ran
  have split : final.driver.rows = final.driver.rows.take 2 ++ (final.driver.rows.drop 2).take 4 ++
      (final.driver.rows.drop 2).drop 4 := by
    rw [List.append_assoc, List.take_append_drop, List.take_append_drop]
  rcases commits_paced run .online _ _ _ split (List.all_eq_true.mp all) with none | ⟨start, began, few⟩
  · rw [counted] at none
    cases none
  · exact ⟨final, ran, _, start, counted, began, few⟩

end QuicMls.TestbedPace
