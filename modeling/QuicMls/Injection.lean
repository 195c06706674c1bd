import QuicMls.Recovery

/-! An outsider on the preamble channel. Anybody can put a datagram on the wire,
and the receiver counts every message its group accepts. What keeps the count
equal to the group's epoch is that the accepted messages are commits. -/
namespace QuicMls.Injection
open BigEndian Groups Transcript Preamble Control CommitHistory Recording CatchUp Recovery

variable {GA MA EA : Type} [MlsGroup GA MA EA] {GB MB EB : Type} [MlsGroup GB MB EB]

/-- Every message of the window that the group accepts at its turn is a commit. -/
def CommitsOnly (group : GB) : Window → UInt64 → Prop
  | [], _ => True
  | (epoch, commitBytes) :: rest, localEpoch =>
      if epoch ≤ localEpoch then CommitsOnly group rest localEpoch
      else if epoch = localEpoch + 1 then
        match MlsGroup.fromBytes GB commitBytes with
        | .error _ => True
        | .ok message =>
            match MlsGroup.processIncomingMessage group message with
            | (.error _, _) => True
            | (.ok kind, group) => kind = .commit ∧ CommitsOnly group rest (localEpoch + 1)
      else True

/-- An action that hands the receiver's group nothing but commits and messages
it refuses. -/
def Clean (system : System GA GB) : Action → Prop
  | .deliver datagram | .inject datagram =>
      ∀ window, parsePreamble datagram = some (.ok window) →
        CommitsOnly system.bob.group window system.bob.localEpoch
  | _ => True

/-! ### The count and the epoch -/

/-- The count never falls behind the group, and keeps up with it exactly on
windows of commits. -/
theorem window_drift [LawfulProcess GB] (window : Window) (group : GB) (localEpoch : UInt64) :
    (MlsGroup.currentEpoch (applyCommitWindow group window localEpoch).2.1).toNat + localEpoch.toNat ≤
        (MlsGroup.currentEpoch group).toNat + (applyCommitWindow group window localEpoch).2.2.toNat ∧
      ((MlsGroup.currentEpoch (applyCommitWindow group window localEpoch).2.1).toNat + localEpoch.toNat =
          (MlsGroup.currentEpoch group).toNat + (applyCommitWindow group window localEpoch).2.2.toNat ↔
        CommitsOnly group window localEpoch) := by
  induction window generalizing group localEpoch with
  | nil => simp [applyCommitWindow, CommitsOnly]
  | cons entry rest ih =>
      -- Both functions take the same branches, so they are unfolded together.
      obtain ⟨epoch, commitBytes⟩ := entry
      rw [applyCommitWindow, CommitsOnly]
      by_cases stale : epoch ≤ localEpoch
      · rw [if_pos stale, if_pos stale]
        exact ih group localEpoch
      · rw [if_neg stale, if_neg stale]
        by_cases successor : epoch = localEpoch + 1
        · rw [if_pos successor, if_pos successor]
          simp only [ExportSecret.applyCommit, applyCommit]
          cases parsed : MlsGroup.fromBytes GB commitBytes with
          | error e => simp
          | ok message =>
              cases processed : MlsGroup.processIncomingMessage group message with
              | mk result next =>
                  cases result with
                  | error e =>
                      have same := LawfulProcess.reject_unchanged group next message e processed
                      simp [processed, same]
                  | ok kind =>
                      obtain ⟨bound, exact_when⟩ := ih next (localEpoch + 1)
                      rw [toNat_succ_of_lt stale] at bound exact_when
                      simp only [processed]
                      by_cases commit : kind = .commit
                      · subst commit
                        have advanced := LawfulProcess.commit_advances group next message processed
                        simp only [true_and, ← exact_when]
                        constructor
                        · omega
                        · omega
                      · -- a message that is not a commit is counted, and the deficit is never made up
                        have stayed := LawfulProcess.other_keeps group next message kind processed commit
                        rw [stayed] at bound
                        constructor
                        · omega
                        · simp only [commit, false_and, iff_false]
                          omega
        · rw [if_neg successor, if_neg successor]
          simp

theorem receive_synced_iff [LawfulProcess GB] {bob : Receiver GB} {origin : Nat} (datagram : Bytes)
    (synced : (MlsGroup.currentEpoch bob.group).toNat = origin + bob.localEpoch.toNat) :
    (MlsGroup.currentEpoch (receive datagram bob).group).toNat =
        origin + (receive datagram bob).localEpoch.toNat ↔
      ∀ window, parsePreamble datagram = some (.ok window) →
        CommitsOnly bob.group window bob.localEpoch := by
  rcases receive_cases datagram bob with ⟨same, silent⟩ | ⟨window, sunk, parsed⟩
  · rw [same]
    exact ⟨fun _ window parsed => absurd parsed (silent window), fun _ => synced⟩
  · have drift := (window_drift window bob.group bob.localEpoch).2
    rw [sunk, parsed, commitSink_group, commitSink_localEpoch]
    simp only [Option.some.injEq, Except.ok.injEq, forall_eq']
    rw [← drift]
    omega

/-- From a state where the count is right, a step keeps it right exactly when it
is clean. -/
theorem step_synced_iff [LawfulProcess GB] {system after : System GA GB} {action : Action} {origin : Nat}
    (synced : (MlsGroup.currentEpoch system.bob.group).toNat = origin + system.bob.localEpoch.toNat)
    (taken : step system action = some after) :
    (MlsGroup.currentEpoch after.bob.group).toNat = origin + after.bob.localEpoch.toNat ↔
      Clean system action := by
  rcases step_bob taken with same | ⟨datagram, received, delivered⟩
  · rw [same]
    cases action with
    | createCommit | sendPreamble | sendReport | receiveReport => exact iff_of_true synced trivial
    | deliver datagram =>
        have received : after.bob = receive datagram system.bob := by
          simp only [step] at taken
          split at taken
          · rw [← Option.some.inj taken]
          · cases taken
        rw [← same, received]
        exact receive_synced_iff datagram synced
    | inject datagram =>
        rw [← same, ← Option.some.inj taken]
        exact receive_synced_iff datagram synced
  · rw [received, receive_synced_iff datagram synced]
    rcases delivered with ⟨rfl, _⟩ | rfl <;> exact Iff.rfl

/-! ### What the receiver's group has applied -/

/-- A group accepts as a commit only the one the sender makes from the same state. -/
def Authentic (Same : GA → GB → Prop) : Prop :=
  ∀ sender receiver message after, Same sender receiver →
    MlsGroup.processIncomingMessage receiver message = (.ok .commit, after) →
      ∃ commit next, createCommit sender = (.ok commit, next) ∧
        MlsGroup.fromBytes GB commit = .ok message ∧ Same next after

/-- A receiver at `localEpoch` whose group went through that many of the sender's commits. -/
structure Applied (Same : GA → GB → Prop) (groupA : GA) (groupB : GB) (group : Recorded GB)
    (localEpoch : UInt64) : Prop where
  epoch : (MlsGroup.currentEpoch group.group).toNat =
    (MlsGroup.currentEpoch groupB).toNat + localEpoch.toNat
  chain : ∃ middle commits, Produces groupA commits middle ∧ Same middle group.group ∧
    commits.length = localEpoch.toNat ∧
    commits.map (MlsGroup.fromBytes GB) = (accepted group.calls).map (MlsGroup.fromBytes GB)

section Applied
variable {Same : GA → GB → Prop} {groupA : GA} {groupB : GB}

/-- The recorder around one accepted or refused call. -/
theorem recorded_applyCommit (group : Recorded GB) (commitBytes : Bytes) :
    ExportSecret.applyCommit group commitBytes =
      ((applyCommit group.group commitBytes).1, { group with
        group := (applyCommit group.group commitBytes).2,
        calls := group.calls ++ [(commitBytes, (applyCommit group.group commitBytes).1.toBool)] }) := rfl

theorem clean_window [LawfulProcess GB] (authentic : Authentic Same) (window : Window)
    (group : Recorded GB) (localEpoch : UInt64) (clean : CommitsOnly group.group window localEpoch)
    (applied : Applied Same groupA groupB group localEpoch) :
    Applied Same groupA groupB (applyCommitWindow group window localEpoch).2.1
      (applyCommitWindow group window localEpoch).2.2 := by
  induction window generalizing group localEpoch with
  | nil => exact applied
  | cons entry rest ih =>
      obtain ⟨epoch, commitBytes⟩ := entry
      rw [applyCommitWindow]
      rw [CommitsOnly] at clean
      by_cases stale : epoch ≤ localEpoch
      · rw [if_pos stale] at clean ⊢
        exact ih group localEpoch clean applied
      · rw [if_neg stale] at clean ⊢
        by_cases successor : epoch = localEpoch + 1
        · rw [if_pos successor] at clean ⊢
          obtain ⟨synced, middle, commits, produces, same, count, messages⟩ := applied
          rw [recorded_applyCommit, applyCommit]
          cases parsed : MlsGroup.fromBytes GB commitBytes with
          | error e =>
              exact ⟨synced, middle, commits, produces, same, count, by simpa [Except.toBool] using messages⟩
          | ok message =>
              simp only [parsed] at clean
              cases processed : MlsGroup.processIncomingMessage group.group message with
              | mk result next =>
                  cases result with
                  | error e =>
                      have unchanged := LawfulProcess.reject_unchanged group.group next message e processed
                      simp only [processed, Except.toBool]
                      refine ⟨by rw [unchanged, synced], middle, commits, produces, ?_, count, ?_⟩
                      · rwa [unchanged]
                      · simpa using messages
                  | ok kind =>
                      simp only [processed] at clean
                      obtain ⟨rfl, later⟩ := clean
                      have advanced := LawfulProcess.commit_advances group.group next message processed
                      -- Authenticity turns the accepted commit into the next one of the sender.
                      obtain ⟨commit, onward, made, read, kept⟩ :=
                        authentic middle group.group message next same processed
                      simp only [processed, Except.toBool]
                      apply ih _ (localEpoch + 1) later
                      constructor
                      · rw [advanced, synced, toNat_succ_of_lt stale, Nat.add_assoc]
                      · refine ⟨onward, commits ++ [commit], produces.concat made, kept, ?_, ?_⟩
                        · rw [List.length_append, count, toNat_succ_of_lt stale]
                          rfl
                        · rw [accepted_ok, List.map_append, List.map_append, messages]
                          simp [read, parsed]
        · rw [if_neg successor]
          exact applied

end Applied

/-! ### Runs with an outsider -/

/-- A group makes one history only. -/
theorem Produces.comparable {group left right : GA} {front other : List Bytes}
    (one : Produces group front left) (two : Produces group other right) :
    front <+: other ∨ other <+: front := by
  induction one generalizing other with
  | none group => exact Or.inl List.nil_prefix
  | commit made _ ih =>
      cases two with
      | none => exact Or.inr List.nil_prefix
      | commit again later =>
          obtain ⟨same, rfl⟩ := Prod.mk.inj (made.symm.trans again)
          obtain rfl := Except.ok.inj same
          rcases ih later with before | after
          · exact Or.inl ((List.prefix_cons_inj _).mpr before)
          · exact Or.inr ((List.prefix_cons_inj _).mpr after)

structure Synced (Same : GA → GB → Prop) (groupA : GA) (groupB : GB)
    (system : System (Recorded GA) (Recorded GB)) : Prop where
  log : Represents system.alice system.alice.inner.created
  epoch : (MlsGroup.currentEpoch system.alice.inner.group).toNat =
    (MlsGroup.currentEpoch groupA).toNat + system.alice.inner.created.length
  produced : Produces groupA system.alice.inner.created system.alice.inner.group
  applied : Applied Same groupA groupB system.bob.group system.bob.localEpoch
  published : system.bob.epochTx = system.bob.localEpoch
  reports : ∀ message ∈ system.reports,
    ∃ k, message = encode (.report k) ∧ k.toNat ≤ system.bob.localEpoch.toNat
  trimmed : system.alice.checkpoint.toNat ≤ system.bob.localEpoch.toNat

section Synced
variable {Same : GA → GB → Prop} {groupA : GA} {groupB : GB}
  {system after : System (Recorded GA) (Recorded GB)}

theorem initial_synced (same : Same groupA groupB) :
    Synced Same groupA groupB (initial (record groupA) (record groupB)) where
  log := Represents.new (record groupA)
  epoch := rfl
  produced := .none groupA
  applied := ⟨rfl, groupA, [], .none groupA, same, rfl, rfl⟩
  published := rfl
  reports := fun _ absurd => by simp [initial] at absurd
  trimmed := Nat.le_refl 0

theorem Synced.receive [LawfulProcess GB] (authentic : Authentic Same)
    (synced : Synced Same groupA groupB system) {datagram : Bytes}
    (clean : ∀ window, parsePreamble datagram = some (.ok window) →
      CommitsOnly system.bob.group.group window system.bob.localEpoch) :
    Synced Same groupA groupB { system with bob := CatchUp.receive datagram system.bob } := by
  rcases receive_cases datagram system.bob with ⟨same, _⟩ | ⟨window, sunk, parsed⟩
  · rw [same]
    exact synced
  · have applied := clean_window authentic window system.bob.group system.bob.localEpoch
      (clean window parsed) synced.applied
    have onward := window_mono window system.bob.group system.bob.localEpoch
    rw [sunk]
    refine { synced with applied, published := ?_, reports := ?_, trimmed := synced.trimmed.trans onward }
    · exact commitSink_published window synced.published
    · intro message member
      obtain ⟨k, same, bound⟩ := synced.reports message member
      exact ⟨k, same, bound.trans onward⟩

theorem Synced.step [LawfulCommit GA] [LawfulProcess GB] (authentic : Authentic Same)
    (synced : Synced Same groupA groupB system) {action : Action} (clean : Clean (erase system) action)
    (taken : CatchUp.step system action = some after) : Synced Same groupA groupB after := by
  cases action with
  | createCommit =>
      obtain ⟨commit, made, _, frame⟩ := step_createCommit taken
      obtain ⟨created, advanced⟩ := created_recorded (CommitLog.createCommit_ok made).1
      have epoch := create_commit_advances advanced
      have bound := (MlsGroup.currentEpoch after.alice.inner.group).toNat_lt
      have before := synced.epoch
      obtain ⟨log, checkpoint⟩ := synced.log.create_commit made (by omega)
      rw [frame]
      refine { synced with log := ?_, epoch := ?_, produced := ?_, trimmed := ?_ }
      · rw [created]
        exact log
      · rw [created, epoch, before, List.length_append]
        rfl
      · rw [created]
        exact synced.produced.concat advanced
      · rw [checkpoint]
        exact synced.trimmed
  | sendPreamble totalBudget sendTo =>
      obtain rfl := Option.some.inj taken
      exact { synced with }
  | deliver datagram =>
      simp only [CatchUp.step] at taken
      split at taken
      · obtain rfl := Option.some.inj taken
        exact synced.receive authentic clean
      · cases taken
  | inject datagram =>
      obtain rfl := Option.some.inj taken
      exact synced.receive authentic clean
  | sendReport =>
      obtain rfl := Option.some.inj taken
      refine { synced with reports := ?_ }
      intro message member
      rcases List.mem_append.mp member with old | fresh
      · exact synced.reports message old
      · obtain rfl := List.mem_singleton.mp fresh
        exact ⟨system.bob.epochTx, rfl, by rw [synced.published]⟩
  | receiveReport message =>
      simp only [CatchUp.step] at taken
      split at taken
      · rename_i inFlight
        obtain ⟨k, rfl, bound⟩ := synced.reports message inFlight
        have read := reportReceiverStep_report system.alice k []
        rw [List.append_nil] at read
        rw [read] at taken
        obtain rfl := Option.some.inj taken
        obtain ⟨log, inner, checkpoint⟩ := synced.log.trim k
        have below := synced.trimmed
        exact { synced with log, trimmed := by dsimp only; omega }
      · cases taken

end Synced

/-- In a run whose deliveries are all clean, injected datagrams included, the
count is the number of epochs the receiver's group advanced, and what is
reported and trimmed are commits that group has applied. -/
theorem clean_run_synced [LawfulCommit GA] [LawfulProcess GB] {Same : GA → GB → Prop}
    (authentic : Authentic Same) {groupA : GA} {groupB : GB} (same : Same groupA groupB)
    {final : System (Recorded GA) (Recorded GB)}
    (run : Machine.Reachable step (fun system => Clean (erase system))
      (initial (record groupA) (record groupB)) final) :
    (MlsGroup.currentEpoch final.bob.group.group).toNat =
      (MlsGroup.currentEpoch groupB).toNat + final.bob.localEpoch.toNat ∧
    (∀ message ∈ final.reports, ∃ k, message = encode (.report k) ∧ k ≤ final.bob.localEpoch) ∧
    ∀ index < final.alice.checkpoint.toNat, ∃ made applied,
      final.alice.inner.created[index]? = some made ∧
      (accepted final.bob.group.calls)[index]? = some applied ∧
      MlsGroup.fromBytes GB made = MlsGroup.fromBytes GB applied := by
  have synced : Synced Same groupA groupB final := by
    apply run.invariant
    · exact initial_synced same
    · intro before action after synced clean taken
      exact synced.step authentic clean taken
  -- Both histories start at the same group, so one is a prefix of the other.
  obtain ⟨middle, commits, produces, _, count, messages⟩ := synced.applied.chain
  refine ⟨synced.applied.epoch, fun message member => ?_, ?_⟩
  · obtain ⟨k, same, bound⟩ := synced.reports message member
    exact ⟨k, same, UInt64.le_iff_toNat_le.mpr bound⟩
  · intro index trimmed
    have below := synced.trimmed
    have kept := synced.log.checkpoint_le
    have inside : index < final.alice.inner.created.length := by omega
    have reached : index < commits.length := by omega
    have agree : commits[index]? = final.alice.inner.created[index]? := by
      rcases Produces.comparable produces synced.produced with ⟨rest, longer⟩ | ⟨rest, longer⟩
      · rw [← longer, List.getElem?_append_left reached]
      · rw [← longer, List.getElem?_append_left inside]
    have size := congrArg List.length messages
    rw [List.length_map, List.length_map] at size
    have here := congrArg (fun list => list[index]?) messages
    simp only [List.getElem?_map, agree, List.getElem?_eq_getElem inside,
      List.getElem?_eq_getElem (size ▸ reached), Option.map_some, Option.some.injEq] at here
    exact ⟨_, _, List.getElem?_eq_getElem inside, List.getElem?_eq_getElem (size ▸ reached), here⟩

/-- Counters accept no commit but their own. -/
theorem counter_authentic :
    Authentic fun left right : CounterGroup => left.epoch = right.epoch := by
  intro sender receiver message after same processed
  simp only [MlsGroup.processIncomingMessage, CounterGroup.process] at processed
  split at processed
  · rename_i successor
    obtain ⟨_, rfl⟩ := Prod.mk.inj processed
    obtain ⟨rfl, more⟩ := successor
    refine ⟨CounterGroup.commitOf sender.epoch, sender.advance, ?_, ?_, ?_⟩
    · simp [createCommit, MlsGroup.commit, MlsGroup.applyPendingCommit, MlsGroup.toBytes, same, more,
        CounterGroup.advance]
    · rw [same]
      rfl
    · simp [CounterGroup.advance, same]
  · split at processed <;> simp at processed

theorem counter_commitsOnly (window : Window) (group : CounterGroup) (localEpoch : UInt64)
    (foreign : ∀ entry ∈ window, entry.2 ≠ CounterGroup.keyPackage) :
    CommitsOnly group window localEpoch := by
  induction window generalizing group localEpoch with
  | nil => trivial
  | cons entry rest ih =>
      obtain ⟨epoch, commitBytes⟩ := entry
      have later := fun (group : CounterGroup) (localEpoch : UInt64) =>
        ih group localEpoch fun entry member => foreign entry (List.mem_cons_of_mem _ member)
      have other : commitBytes ≠ CounterGroup.keyPackage := foreign (epoch, commitBytes) List.mem_cons_self
      rw [CommitsOnly]
      split
      · exact later group localEpoch
      · split
        · simp only [MlsGroup.fromBytes, MlsGroup.processIncomingMessage, CounterGroup.process, if_neg other]
          split
          · trivial
          · rename_i kind next answer
            split at answer
            · obtain ⟨kind, rfl⟩ := Prod.mk.inj answer
              exact ⟨(Except.ok.inj kind).symm, later _ _⟩
            · cases answer
        · trivial

/-- An outsider sends a QUIC-like packet and bytes no group accepts, while one
commit is shipped and reported. -/
theorem clean_run_synced_noise :
    ∃ final : System (Recorded CounterGroup) (Recorded CounterGroup),
      Machine.run step (initial (record CounterGroup.fresh) (record CounterGroup.fresh))
        [.inject [0xFF], .createCommit, .sendPreamble 100 (fun _ => .ok ()),
          .inject (datagramOf [(1, [9])]), .deliver (datagramOf [(1, CounterGroup.commitOf 0)]),
          .sendReport, .receiveReport (encode (.report 1))] = some final ∧
      (MlsGroup.currentEpoch final.bob.group.group).toNat = 0 + final.bob.localEpoch.toNat := by
  cases ran : Machine.run step (initial (record CounterGroup.fresh) (record CounterGroup.fresh))
      [.inject [0xFF], .createCommit, .sendPreamble 100 (fun _ => .ok ()),
        .inject (datagramOf [(1, [9])]), .deliver (datagramOf [(1, CounterGroup.commitOf 0)]),
        .sendReport, .receiveReport (encode (.report 1))] with
  | none => exact absurd ran (by decide +kernel)
  | some final =>
      have quiet : parsePreamble [0xFF] = none := by decide
      have garbage : parsePreamble (datagramOf [(1, [9])]) = some (.ok [(1, [9])]) := by decide +kernel
      have commit : parsePreamble (datagramOf [(1, CounterGroup.commitOf 0)]) =
          some (.ok [(1, CounterGroup.commitOf 0)]) := by decide +kernel
      have run : Machine.Reachable step (fun system => Clean (erase system))
          (initial (record CounterGroup.fresh) (record CounterGroup.fresh)) final := by
        refine Machine.reachable_of_run _ _ (fun state action member => ?_) ran
        simp only [List.mem_cons, List.not_mem_nil, or_false] at member
        rcases member with rfl | rfl | rfl | rfl | rfl | rfl | rfl
        · simp [Clean, quiet]
        · trivial
        · trivial
        · simp only [Clean, garbage, Option.some.injEq, Except.ok.injEq, forall_eq']
          exact counter_commitsOnly _ _ _ (by decide)
        · simp only [Clean, commit, Option.some.injEq, Except.ok.injEq, forall_eq']
          exact counter_commitsOnly _ _ _ (by decide)
        · trivial
        · trivial
      exact ⟨final, rfl, (clean_run_synced counter_authentic rfl run).1⟩

/-- A key package under the next label is counted, reported and costs the sender
the commit it stands in for. -/
theorem injected_key_package_loses_commit :
    ∃ final : System (Recorded CounterGroup) (Recorded CounterGroup),
      Machine.Reachable step (fun _ _ => True)
        (initial (record CounterGroup.fresh) (record CounterGroup.fresh)) final ∧
      final.bob.localEpoch = 1 ∧ MlsGroup.currentEpoch final.bob.group.group = 0 ∧
      encode (.report 1) ∈ final.reports ∧ final.alice.checkpoint = 1 ∧
      final.alice.windowBytes = [] ∧ CounterGroup.commitOf 0 ∉ accepted final.bob.group.calls := by
  cases ran : Machine.run step (initial (record CounterGroup.fresh) (record CounterGroup.fresh))
      [.createCommit, .inject (datagramOf [(1, CounterGroup.keyPackage)]), .sendReport,
        .receiveReport (encode (.report 1))] with
  | none => exact absurd ran (by decide +kernel)
  | some final =>
      have run : Machine.Reachable step (fun _ _ => True) _ final :=
        Machine.reachable_of_run _ _ (fun _ _ _ => trivial) ran
      have facts : (Machine.run step (initial (record CounterGroup.fresh) (record CounterGroup.fresh))
          [.createCommit, .inject (datagramOf [(1, CounterGroup.keyPackage)]), .sendReport,
            .receiveReport (encode (.report 1))]).all (fun final =>
          final.bob.localEpoch = 1 ∧ MlsGroup.currentEpoch final.bob.group.group = 0 ∧
          encode (.report 1) ∈ final.reports ∧ final.alice.checkpoint = 1 ∧
          final.alice.windowBytes = [] ∧ CounterGroup.commitOf 0 ∉ accepted final.bob.group.calls) = true := by
        decide +kernel
      rw [ran, Option.all_some, decide_eq_true_eq] at facts
      exact ⟨final, run, facts⟩

end QuicMls.Injection
