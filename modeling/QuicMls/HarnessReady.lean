import QuicMls.HarnessLog

/-! The ready file between the drivers. The sender begins a contact when the file holds a
cycle she has not seen, or when she has waited long enough; so she runs ahead of the
receiver's cycles only as fast as her waits run out. -/
namespace QuicMls.HarnessReady
open BigEndian Groups Harness
open AliceDriver (Args Testbed)

theorem parseU64_toDigits (cycle : UInt64) : parseU64 (Nat.toDigits 10 cycle.toNat) = some cycle := by
  have digits := Decimal.toDigits_digits cycle.toNat
  rw [parseU64, Decimal.trim_of_digits digits, Decimal.unsigned_of_digits digits, Decimal.readNat_toDigits,
    Option.bind_some, if_pos cycle.toNat_lt, UInt64.ofNat_toNat]

/-! ### The sender's waits -/

/-- Where the wait of the sender began, if she waits, and otherwise where she is. -/
def since (driver : AliceDriver.Driver) : Nat :=
  match driver.point with
  | .waitForReady start => start
  | _ => driver.clock

section Alice
variable {GA GB EA EB : Type} [ExportSecret GA EA] [ExportSecret GB EB] {args : Args} {now timestamp : Nat}

/-- A contact is begun on a fresh cycle, or on none after a whole wait. -/
inductive Waited (args : Args) (now : Nat) (before after : AliceDriver.Driver) : AliceDriver.Outcome → Prop
  | kept {outcome : AliceDriver.Outcome} (same : after.cycle = before.cycle)
      (seen : after.lastReadySeen = before.lastReadySeen) : Waited args now before after outcome
  | stale {outcome : AliceDriver.Outcome} (next : after.cycle = before.cycle + 1)
      (seen : after.lastReadySeen = before.lastReadySeen) (waited : args.reportTimeout ≤ now - since before)
      (done : since after = now) : Waited args now before after outcome
  | fresh (next : after.cycle = before.cycle + 1) (seen : before.lastReadySeen < after.lastReadySeen) :
      Waited args now before after (.ready (some after.lastReadySeen))

theorem waited_of_ready {testbed after : Testbed GA GB} {start : Nat} {content : Option UInt64}
    (waits : testbed.driver.point = .waitForReady start)
    (taken : AliceDriver.runAlice args testbed now timestamp (.ready content) = some after) :
    Waited args now testbed.driver after.driver (.ready content) := by
  simp only [AliceDriver.runAlice, waits] at taken
  split at taken
  · obtain rfl := Option.some.inj taken
    exact .kept rfl rfl
  · rename_i goesOn
    obtain rfl := Option.some.inj taken
    cases fresh : content.filter fun cycle => testbed.driver.lastReadySeen < cycle with
    | none =>
        rw [fresh] at goesOn
        refine .stale rfl rfl (Nat.le_of_not_lt fun early => goesOn ⟨rfl, ?_⟩) ?_
        · simpa only [since, waits] using early
        · by_cases first : testbed.driver.cycle + 1 = 1 <;> simp [since, first]
    | some cycle =>
        obtain ⟨rfl, later⟩ := Option.filter_eq_some_iff.mp fresh
        exact .fresh rfl (of_decide_eq_true later)

theorem waited_of_runAlice {testbed after : Testbed GA GB} {outcome : AliceDriver.Outcome}
    (taken : AliceDriver.runAlice args testbed now timestamp outcome = some after) :
    Waited args now testbed.driver after.driver outcome := by
  by_cases fails : outcome = .fail
  · subst fails
    rw [AliceRuns.runAlice_fail taken]
    exact .kept rfl rfl
  have moved := AliceRuns.moved_of_runAlice taken
  generalize here : after.driver = driver, after.pipeline = pipeline at moved
  cases moved with
  | contact waits lastReadySeen =>
      rw [← here]
      cases outcome with
      | ready content => exact waited_of_ready waits taken
      | fail => exact absurd rfl fails
      | _ => simp [AliceDriver.runAlice, waits] at taken
  | _ => exact .kept rfl rfl

/-- A wait begins now or goes on. -/
theorem waits_of_moved {driver driver' : AliceDriver.Driver} {pipeline pipeline' : ReportPipeline.Pipeline GA GB}
    (moved : AliceRuns.Moved args now timestamp driver pipeline driver' pipeline') :
    ∀ start, driver'.point = .waitForReady start → start = now ∨ since driver = start := by
  intro start waits
  cases moved with
  | @silent point moves =>
      generalize here : driver.point = old at moves
      cases moves with
      | begin =>
          cases waits
          exact Or.inl rfl
      | poll began =>
          cases waits
          exact Or.inr (by simp only [since, here])
      | _ => cases waits
  | logged latency logs =>
      generalize driver.point = old at logs
      cases logs <;> cases waits
  | contact before lastReadySeen =>
      dsimp only at waits
      split at waits <;> cases waits
  | opened opens taken =>
      generalize driver.point = old at opens
      cases opens <;> cases waits
  | committed commits taken =>
      rw [AliceRuns.Loop.committed] at waits
      split at waits <;> cases waits
  | _ => cases waits

theorem since_of_moved {driver driver' : AliceDriver.Driver} {pipeline pipeline' : ReportPipeline.Pipeline GA GB}
    (moved : AliceRuns.Moved args now timestamp driver pipeline driver' pipeline') (forward : driver.clock ≤ now)
    (within : since driver ≤ driver.clock) :
    since driver ≤ since driver' ∧ since driver' ≤ driver'.clock := by
  have clock := AliceRuns.moved_clock moved
  have begins := waits_of_moved moved
  have passed : since driver ≤ now := within.trans forward
  cases waits : driver'.point with
  | waitForReady start =>
      have began : since driver' = start := by simp only [since, waits]
      rw [began, clock]
      rcases begins start waits with rfl | rfl
      · exact ⟨passed, le_rfl⟩
      · exact ⟨le_rfl, passed⟩
  | _ =>
      have elsewhere : since driver' = driver'.clock := by simp only [since, waits]
      rw [elsewhere, clock]
      exact ⟨passed, le_rfl⟩

end Alice

/-! ### Both drivers -/

/-- After `count` steps. `late` is how many waits have run out. -/
structure Barrier (args : Args) (count : Nat) (alice : AliceDriver.Driver) (bob : BobDriver.Driver) : Prop where
  contacts : alice.cycle.toNat ≤ count
  cycles : bob.cycle.toNat ≤ count
  file : ∀ cycle, bob.ready.bind parseU64 = some cycle → cycle = bob.cycle
  seen : alice.lastReadySeen ≤ bob.cycle
  within : since alice ≤ alice.clock
  late : ∃ late, alice.cycle.toNat ≤ alice.lastReadySeen.toNat + late ∧ late * args.reportTimeout ≤ since alice

section Runs
variable {GA GB EA EB : Type} [ExportSecret GA EA] [ExportSecret GB EB] {argsA argsB : Args} {groupA : GA}
  {groupB : GB} {count : Nat} {before after final : Parties GA GB} {actions : List Harness.Action}

theorem toNat_succ {cycle : UInt64} (few : cycle.toNat ≤ count) (room : count + 1 < 2 ^ 64) :
    (cycle + 1).toNat = cycle.toNat + 1 := by
  rw [UInt64.toNat_add]
  exact Nat.mod_eq_of_lt (lt_of_le_of_lt (Nat.succ_le_succ few) room)

theorem alice_barrier {testbed after : Testbed GA GB} {bob : BobDriver.Driver} {now timestamp : Nat}
    {outcome : AliceDriver.Outcome} (barrier : Barrier argsA count testbed.driver bob)
    (room : count + 1 < 2 ^ 64) (read : readable bob.ready outcome = true)
    (taken : AliceDriver.step argsA testbed (.alice now timestamp outcome) = some after) :
    Barrier argsA (count + 1) after.driver bob := by
  obtain ⟨contacts, cycles, file, seen, within, late, ahead, waited⟩ := barrier
  simp only [AliceDriver.step] at taken
  split at taken
  · cases taken
  · rename_i forward
    obtain ⟨longer, within'⟩ :=
      since_of_moved (AliceRuns.moved_of_runAlice taken) (Nat.le_of_not_lt forward) within
    have one := toNat_succ contacts room
    cases waited_of_runAlice taken with
    | kept still unread =>
        refine ⟨?_, Nat.le_succ_of_le cycles, file, unread ▸ seen, within', late, ?_, waited.trans longer⟩
        · rw [still]
          exact Nat.le_succ_of_le contacts
        · rw [still, unread]
          exact ahead
    | stale next unread full done =>
        refine ⟨?_, Nat.le_succ_of_le cycles, file, unread ▸ seen, within', late + 1, ?_, ?_⟩
        · rw [next, one]
          exact Nat.succ_le_succ contacts
        · rw [next, unread, one]
          exact Nat.succ_le_succ ahead
        · rw [done, Nat.succ_mul]
          omega
    | fresh next later =>
        have announced := file _ (beq_iff_eq.mp read)
        rw [UInt64.lt_iff_toNat_lt] at later
        refine ⟨?_, Nat.le_succ_of_le cycles, file, announced.le, within', late, ?_, waited.trans longer⟩
        · rw [next, one]
          exact Nat.succ_le_succ contacts
        · rw [next, one]
          omega

theorem bob_barrier {alice : AliceDriver.Driver} {bob after : BobDriver.Driver} {now timestamp : Nat}
    {pipeline pipeline' : ReportPipeline.Pipeline GA GB} (barrier : Barrier argsA count alice bob)
    (room : count + 1 < 2 ^ 64) (moved : BobRuns.Moved argsB now timestamp bob pipeline after pipeline') :
    Barrier argsA (count + 1) alice after := by
  obtain ⟨contacts, cycles, file, seen, within, late⟩ := barrier
  cases moved with
  | contact waits =>
      have one := toNat_succ cycles room
      have more : bob.cycle ≤ bob.cycle + 1 := by
        rw [UInt64.le_iff_toNat_le, one]
        exact Nat.le_succ _
      refine ⟨Nat.le_succ_of_le contacts, ?_, fun cycle read => ?_, seen.trans more, within, late⟩
      · exact one.trans_le (Nat.succ_le_succ cycles)
      · exact (Option.some.inj ((parseU64_toDigits _).symm.trans read)).symm
  | _ => exact ⟨Nat.le_succ_of_le contacts, Nat.le_succ_of_le cycles, file, seen, within, late⟩

theorem start_barrier : Barrier argsA 0 AliceDriver.Driver.start BobDriver.Driver.start := by
  refine ⟨le_rfl, le_rfl, fun cycle read => ?_, le_rfl, le_rfl, 0, le_rfl, ?_⟩
  · cases read
  · rw [Nat.zero_mul]
    exact Nat.zero_le _

theorem barrier_step {action : Harness.Action} (barrier : Barrier argsA count before.testbed.driver before.bob)
    (room : count + 1 < 2 ^ 64) (taken : Harness.step argsA argsB before action = some after) :
    Barrier argsA (count + 1) after.testbed.driver after.bob := by
  rcases step_cases taken with ⟨_, _, _, -, read, same, moved⟩ | ⟨_, _, _, -, same, moved⟩ |
    ⟨_, -, -, same, moved⟩
  · rw [same]
    exact alice_barrier barrier room read moved
  · rw [same]
    exact bob_barrier barrier room moved
  · obtain ⟨-, kept, -⟩ := network_taken moved
    obtain ⟨contacts, cycles, file, seen, within, late⟩ := barrier
    rw [same, kept]
    exact ⟨Nat.le_succ_of_le contacts, Nat.le_succ_of_le cycles, file, seen, within, late⟩

/-- The sender has seen no cycle that the receiver has not begun, and however many contacts
she has begun beyond his cycles, she has waited out the time for each. -/
theorem contacts_paced
    (ran : Machine.run (Harness.step argsA argsB) (Parties.start groupA groupB) actions = some final)
    (short : actions.length < 2 ^ 64) :
    final.testbed.driver.lastReadySeen ≤ final.bob.cycle ∧
      (final.testbed.driver.cycle.toNat - final.bob.cycle.toNat) * argsA.reportTimeout ≤
        final.testbed.driver.clock := by
  have counted : actions.length < 2 ^ 64 → Barrier argsA actions.length final.testbed.driver final.bob := by
    refine @Machine.run_counted _ _ _ _
      (fun count parties => count < 2 ^ 64 → Barrier argsA count parties.testbed.driver parties.bob) _ _
      (fun _ => start_barrier) (fun count before action after barrier taken room => ?_) ran
    exact barrier_step (barrier (Nat.lt_of_succ_lt room)) room taken
  obtain ⟨-, -, -, seen, within, late, ahead, waited⟩ := counted short
  have order := UInt64.le_iff_toNat_le.mp seen
  refine ⟨seen, ?_⟩
  calc (final.testbed.driver.cycle.toNat - final.bob.cycle.toNat) * argsA.reportTimeout
      ≤ late * argsA.reportTimeout := Nat.mul_le_mul_right _ (by omega)
    _ ≤ since final.testbed.driver := waited
    _ ≤ final.testbed.driver.clock := within

end Runs

/-- After the blackout the receiver does not come back. -/
def oneWaiting : List Harness.Action :=
  HarnessLog.firstContact ++ HarnessLog.commitReported ++
  HarnessLog.aliceAt 15 [.go, .go, .go, .go, .go] ++ HarnessLog.aliceAt 23 [.deadline, .go, .go, .ready none] ++
  HarnessLog.aliceAt 28 [.ready none]

theorem contacts_paced_one_waiting : ∃ final,
    Machine.run (Harness.step TestbedLog.oneBlackout TestbedLog.oneBlackout)
      (Parties.start CounterGroup.fresh CounterGroup.fresh) oneWaiting = some final ∧
      final.testbed.driver.cycle = 2 ∧ final.bob.cycle = 1 ∧
      final.testbed.driver.lastReadySeen ≤ final.bob.cycle ∧
      TestbedLog.oneBlackout.reportTimeout ≤ final.testbed.driver.clock := by
  have view : (Machine.run (Harness.step TestbedLog.oneBlackout TestbedLog.oneBlackout)
      (Parties.start CounterGroup.fresh CounterGroup.fresh) oneWaiting).map
        (fun final => (final.testbed.driver.cycle, final.bob.cycle)) = some (2, 1) := by
    decide +kernel
  obtain ⟨final, ran, same⟩ := Option.map_eq_some_iff.mp view
  obtain ⟨hers, his⟩ := Prod.mk.inj same
  obtain ⟨seen, waited⟩ := contacts_paced ran (by decide)
  rw [hers, his] at waited
  exact ⟨final, ran, hers, his, seen, (Nat.one_mul _).symm.trans_le waited⟩

end QuicMls.HarnessReady
