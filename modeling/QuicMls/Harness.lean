import QuicMls.BobRuns
import QuicMls.Decimal

/-! Both drivers of the measurement harness at once, over one network. They share a
ready file and nothing else: what either does to the other goes through packets. -/
namespace QuicMls.Harness
open BigEndian Groups BobDriver
open AliceDriver (Args Testbed isDrivers)
open ReportPipeline hiding step Action honest steady

structure Parties (GA GB : Type) where
  testbed : Testbed GA GB
  bob : Driver

def Parties.start {GA GB : Type} (groupA : GA) (groupB : GB) : Parties GA GB :=
  { testbed := Testbed.start groupA groupB, bob := Driver.start }

inductive Action where
  | alice (now timestamp : Nat) (outcome : AliceDriver.Outcome)
  | bob (now timestamp : Nat) (outcome : Outcome)
  | network (action : ReportPipeline.Action)

/-- The calls that only the receiver's driver makes. Nobody else has the flag of a report
task. -/
def isBobs : ReportPipeline.Action → Bool
  | .link _ .spawnSender => true
  | .link _ (.sender .abort) => true
  | .link _ (.sender (.setShouldReport _)) => true
  | .dropEpochTx => true
  | _ => false

/-- `parse::<u64>` of what `trim` leaves. A plus sign may stand in front. -/
def parseU64 (text : List Char) : Option UInt64 :=
  (Decimal.readNat (Decimal.unsigned (Decimal.trim text))).bind fun value =>
    if value < 2 ^ 64 then some (UInt64.ofNat value) else none

/-- The ready file is read whole, or not at all while it is being written. -/
def readable (ready : Option (List Char)) : AliceDriver.Outcome → Bool
  | .ready (some content) => ready.bind parseU64 == some content
  | _ => true

section Step
variable {GA GB EA EB : Type} [ExportSecret GA EA] [ExportSecret GB EB]

def step (argsA argsB : Args) (parties : Parties GA GB) : Action → Option (Parties GA GB)
  | .alice now timestamp outcome =>
      if readable parties.bob.ready outcome then
        (AliceDriver.step argsA parties.testbed (.alice now timestamp outcome)).map fun testbed =>
          { parties with testbed }
      else none
  | .bob now timestamp outcome =>
      if now < parties.bob.clock then none
      else
        (runBob argsB parties.bob parties.testbed.pipeline now timestamp outcome).map fun (bob, pipeline) =>
          { bob, testbed := { parties.testbed with pipeline } }
  | .network action =>
      if isBobs action then none
      else
        (AliceDriver.step argsA parties.testbed (.other action)).map fun testbed => { parties with testbed }

/-- Nothing is injected. -/
def honest : Action → Prop
  | .network action => ReportPipeline.honest action
  | _ => True

/-! ### Everything a step can do -/

variable {argsA argsB : Args} {before after : Parties GA GB}

theorem step_cases {action : Action} (taken : step argsA argsB before action = some after) :
    (∃ now timestamp outcome, action = .alice now timestamp outcome ∧
      readable before.bob.ready outcome = true ∧ after.bob = before.bob ∧
      AliceDriver.step argsA before.testbed (.alice now timestamp outcome) = some after.testbed) ∨
    (∃ now timestamp outcome, action = .bob now timestamp outcome ∧
      after.testbed.driver = before.testbed.driver ∧
      BobRuns.Moved argsB now timestamp before.bob before.testbed.pipeline after.bob after.testbed.pipeline) ∨
    ∃ inner, action = .network inner ∧ isBobs inner = false ∧ after.bob = before.bob ∧
      AliceDriver.step argsA before.testbed (.other inner) = some after.testbed := by
  cases action with
  | alice now timestamp outcome =>
      simp only [step] at taken
      split at taken
      · rename_i read
        obtain ⟨testbed, moved, rfl⟩ := Option.map_eq_some_iff.mp taken
        exact Or.inl ⟨now, timestamp, outcome, rfl, read, rfl, moved⟩
      · cases taken
  | bob now timestamp outcome =>
      simp only [step] at taken
      split at taken
      · cases taken
      · obtain ⟨⟨bob, pipeline⟩, moved, rfl⟩ := Option.map_eq_some_iff.mp taken
        exact Or.inr (Or.inl ⟨now, timestamp, outcome, rfl, rfl, BobRuns.moved_of_runBob moved⟩)
  | network inner =>
      simp only [step] at taken
      split at taken
      · cases taken
      · rename_i theirs
        obtain ⟨testbed, moved, rfl⟩ := Option.map_eq_some_iff.mp taken
        exact Or.inr (Or.inr ⟨inner, rfl, Bool.eq_false_iff.mpr theirs, rfl, moved⟩)

theorem alice_taken {before after : Testbed GA GB} {now timestamp : Nat} {outcome : AliceDriver.Outcome}
    (taken : AliceDriver.step argsA before (.alice now timestamp outcome) = some after) :
    AliceRuns.Moved argsA now timestamp before.driver before.pipeline after.driver after.pipeline := by
  simp only [AliceDriver.step] at taken
  split at taken
  · cases taken
  · exact AliceRuns.moved_of_runAlice taken

/-- The receiver's driver does at most one thing to the pipeline in a step, one that the
sender's driver never does. -/
theorem moved_pipeline {now timestamp : Nat} {driver driver' : Driver} {pipeline pipeline' : Pipeline GA GB}
    (moved : BobRuns.Moved argsB now timestamp driver pipeline driver' pipeline') :
    pipeline' = pipeline ∨ ∃ inner, ReportPipeline.step pipeline inner = some pipeline' ∧
      isDrivers inner = false ∧ ReportPipeline.honest inner ∧ ReportPipeline.steady inner := by
  cases moved with
  | silent moves => exact Or.inl rfl
  | logged latency logs => exact Or.inl rfl
  | contact waits => exact Or.inl rfl
  | incoming keys waits holds => exact Or.inl rfl
  | reused waits spent => exact Or.inl rfl
  | spawned waits taken => exact Or.inr ⟨_, taken, rfl, trivial, trivial⟩
  | aborted waits leaves taken => exact Or.inr ⟨_, taken, rfl, trivial, trivial⟩
  | returned waits taken => exact Or.inr ⟨_, taken, rfl, trivial, trivial⟩

theorem network_taken {before after : Testbed GA GB} {inner : ReportPipeline.Action}
    (taken : AliceDriver.step argsA before (.other inner) = some after) :
    isDrivers inner = false ∧ after.driver = before.driver ∧
      ReportPipeline.step before.pipeline inner = some after.pipeline := by
  simp only [AliceDriver.step] at taken
  split at taken
  · cases taken
  · rename_i theirs
    obtain ⟨pipeline, moved, rfl⟩ := Option.map_eq_some_iff.mp taken
    exact ⟨Bool.eq_false_iff.mpr theirs, rfl, moved⟩

theorem steady_of_network {inner : ReportPipeline.Action} (theirs : isBobs inner = false) :
    ReportPipeline.steady inner := by
  cases inner with
  | link index event =>
      cases event with
      | sender event =>
          cases event with
          | setShouldReport value => cases theirs
          | _ => trivial
      | _ => trivial
  | _ => trivial

/-- Without the receiver's driver, a step is one of the testbed or none. -/
theorem testbed_step {action : Action} (taken : step argsA argsB before action = some after) :
    after.testbed = before.testbed ∨ ∃ inner, AliceDriver.step argsA before.testbed inner = some after.testbed ∧
      (honest action → AliceRuns.honest inner) ∧ AliceRuns.steady inner := by
  rcases step_cases taken with ⟨now, timestamp, outcome, rfl, -, -, moved⟩ |
    ⟨now, timestamp, outcome, rfl, same, moved⟩ | ⟨inner, rfl, theirs, -, moved⟩
  · exact Or.inr ⟨_, moved, fun _ => trivial, trivial⟩
  · obtain ⟨testbed, bob⟩ := before
    obtain ⟨testbed', bob'⟩ := after
    obtain ⟨driver, pipeline⟩ := testbed
    obtain ⟨driver', pipeline'⟩ := testbed'
    obtain rfl : driver' = driver := same
    rcases moved_pipeline moved with unmoved | ⟨inner, moved, free, fair, steady⟩
    · obtain rfl : pipeline' = pipeline := unmoved
      exact Or.inl rfl
    · refine Or.inr ⟨.other inner, ?_, fun _ => fair, steady⟩
      simp only [AliceDriver.step, free, Bool.false_eq_true, if_false, Option.map_eq_some_iff]
      exact ⟨pipeline', moved, rfl⟩
  · exact Or.inr ⟨_, moved, id, steady_of_network theirs⟩

variable {groupA : GA} {groupB : GB} {final : Parties GA GB}

/-- Without the receiver's driver, a run is one of the testbed. -/
theorem testbed_run {Honest : Prop}
    (run : Machine.Reachable (step argsA argsB) (fun _ action => Honest → honest action)
      (Parties.start groupA groupB) final) :
    Machine.Reachable (AliceDriver.step argsA)
      (fun _ action => (Honest → AliceRuns.honest action) ∧ AliceRuns.steady action)
      (Testbed.start groupA groupB) final.testbed := by
  induction run with
  | start => exact .start
  | next action _ permitted taken ih =>
      rcases testbed_step taken with same | ⟨inner, moved, fair, steady⟩
      · rw [same]
        exact ih
      · exact ih.next inner ⟨fun honest => fair (permitted honest), steady⟩ moved

/-- Without either driver, a run is one of the pipeline. -/
theorem pipeline_run {Honest : Prop}
    (run : Machine.Reachable (step argsA argsB) (fun _ action => Honest → honest action)
      (Parties.start groupA groupB) final) :
    Machine.Reachable ReportPipeline.step (ReportRefinement.Allowed Honest True)
      (initial groupA groupB) final.testbed.pipeline :=
  AliceRuns.pipeline_run ((testbed_run run).mono fun _ _ permitted => ⟨permitted.1, fun _ => permitted.2⟩)

end Step

end QuicMls.Harness
