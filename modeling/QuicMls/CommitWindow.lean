import QuicMls.CatchUp

/-! One `apply_commit_window` call on any window, however malformed, and the
delivery of one window in several datagrams. A call completes a front of the
window and then stops for one of three reasons; everything else follows from
where it stops. -/
namespace QuicMls.CommitWindow
open BigEndian Groups Transcript Preamble CommitHistory Recording CatchUp

/-! ### Overflow -/

/-- Addition that panics on overflow, as in a checked build. -/
def checkedSucc (epoch : UInt64) : Option UInt64 :=
  if epoch.toNat + 1 < 2 ^ 64 then some (epoch + 1) else none

section Call
variable {G MlsError : Type} [ExportSecret G MlsError]

/-- `apply_commit_window` with both of its sums checked. -/
def applyCommitWindowChecked (group : G) :
    Window → UInt64 → Option (Except (CommitWindowError MlsError) Unit × G × UInt64)
  | [], localEpoch => some (.ok (), group, localEpoch)
  | (epoch, commitBytes) :: rest, localEpoch =>
      if epoch ≤ localEpoch then applyCommitWindowChecked group rest localEpoch
      else
        (checkedSucc localEpoch).bind fun successor =>
          if epoch = successor then
            match ExportSecret.applyCommit group commitBytes with
            | (.error e, group) => some (.error (.mlsError e), group, localEpoch)
            | (.ok (), group) =>
                (checkedSucc localEpoch).bind fun next => applyCommitWindowChecked group rest next
          else some (.error .resyncNeeded, group, localEpoch)

theorem checkedSucc_of_lt {localEpoch epoch : UInt64} (larger : ¬ epoch ≤ localEpoch) :
    checkedSucc localEpoch = some (localEpoch + 1) := by
  have below := epoch.toNat_lt
  rw [UInt64.le_iff_toNat_le] at larger
  exact if_pos (by omega)

theorem applyCommitWindowChecked_eq (group : G) (window : Window) (localEpoch : UInt64) :
    applyCommitWindowChecked group window localEpoch =
      some (applyCommitWindow group window localEpoch) := by
  induction window generalizing group localEpoch with
  | nil => rfl
  | cons entry rest ih =>
      obtain ⟨epoch, commitBytes⟩ := entry
      rw [applyCommitWindowChecked, applyCommitWindow]
      by_cases stale : epoch ≤ localEpoch
      · rw [if_pos stale, if_pos stale]
        exact ih group localEpoch
      · rw [if_neg stale, if_neg stale, checkedSucc_of_lt stale, Option.bind_some]
        by_cases successor : epoch = localEpoch + 1
        · rw [if_pos successor, if_pos successor]
          rcases ExportSecret.applyCommit group commitBytes with ⟨answer, after⟩
          cases answer with
          | error e => rfl
          | ok done => exact ih after (localEpoch + 1)
        · rw [if_neg successor, if_neg successor]

/-! ### Where a call stops -/

/-- A group accepts these commits one after the other. -/
inductive Accepts : G → List Bytes → G → Prop
  | none (group : G) : Accepts group [] group
  | commit {group next last : G} {commit : Bytes} {rest : List Bytes}
      (applied : ExportSecret.applyCommit group commit = (.ok (), next)) (later : Accepts next rest last) :
      Accepts group (commit :: rest) last

/-- Why a call leaves the rest of its window alone, and what it returns then. -/
inductive Stop (group : G) (localEpoch : UInt64) :
    Window → Except (CommitWindowError MlsError) Unit × G × UInt64 → Prop
  | finished : Stop group localEpoch [] (.ok (), group, localEpoch)
  | gap {epoch : UInt64} {commitBytes : Bytes} {rest : Window} (larger : ¬ epoch ≤ localEpoch)
      (beyond : epoch ≠ localEpoch + 1) :
      Stop group localEpoch ((epoch, commitBytes) :: rest) (.error .resyncNeeded, group, localEpoch)
  | rejected {commitBytes : Bytes} {rest : Window} {after : G} {e : MlsError}
      (larger : ¬ localEpoch + 1 ≤ localEpoch)
      (answer : ExportSecret.applyCommit group commitBytes = (.error e, after)) :
      Stop group localEpoch ((localEpoch + 1, commitBytes) :: rest)
        (.error (.mlsError e), after, localEpoch)

theorem applyCommitWindow_append {group middle : G} {front : Window} {localEpoch reached : UInt64}
    (completed : applyCommitWindow group front localEpoch = (.ok (), middle, reached)) (back : Window) :
    applyCommitWindow group (front ++ back) localEpoch = applyCommitWindow middle back reached := by
  induction front generalizing group localEpoch with
  | nil =>
      simp only [applyCommitWindow, Prod.mk.injEq, true_and] at completed
      obtain ⟨rfl, rfl⟩ := completed
      rfl
  | cons entry rest ih =>
      rw [List.cons_append]
      rcases entry_cases group localEpoch entry with
        stale | ⟨larger, gap⟩ | ⟨larger, successor, e, after, answer⟩ | ⟨larger, successor, after, answer⟩
      · rw [applyCommitWindow_stale rest stale] at completed
        rw [applyCommitWindow_stale _ stale]
        exact ih completed
      · rw [applyCommitWindow_gap rest larger gap] at completed
        cases completed
      · rw [applyCommitWindow_rejected rest larger successor answer] at completed
        cases completed
      · rw [applyCommitWindow_accepted rest larger successor answer] at completed
        rw [applyCommitWindow_accepted _ larger successor answer]
        exact ih completed

/-- Every call completes a front of its window and stops there. -/
theorem window_stops (group : G) (window : Window) (localEpoch : UInt64) :
    ∃ front back middle reached, window = front ++ back ∧
      applyCommitWindow group front localEpoch = (.ok (), middle, reached) ∧
      Stop middle reached back (applyCommitWindow group window localEpoch) := by
  induction window generalizing group localEpoch with
  | nil => exact ⟨[], [], group, localEpoch, rfl, rfl, .finished⟩
  | cons entry rest ih =>
      rcases entry_cases group localEpoch entry with
        stale | ⟨larger, gap⟩ | ⟨larger, successor, e, after, answer⟩ | ⟨larger, successor, after, answer⟩
      · obtain ⟨front, back, middle, reached, rfl, completed, stop⟩ := ih group localEpoch
        rw [applyCommitWindow_stale _ stale]
        refine ⟨entry :: front, back, middle, reached, rfl, ?_, stop⟩
        rw [applyCommitWindow_stale front stale, completed]
      · rw [applyCommitWindow_gap rest larger gap]
        exact ⟨[], _, group, localEpoch, rfl, rfl, .gap larger gap⟩
      · rw [applyCommitWindow_rejected rest larger successor answer]
        obtain ⟨epoch, commitBytes⟩ := entry
        subst successor
        exact ⟨[], _, group, localEpoch, rfl, rfl, .rejected larger answer⟩
      · obtain ⟨front, back, middle, reached, rfl, completed, stop⟩ := ih after (localEpoch + 1)
        rw [applyCommitWindow_accepted _ larger successor answer]
        refine ⟨entry :: front, back, middle, reached, rfl, ?_, stop⟩
        rw [applyCommitWindow_accepted front larger successor answer, completed]

/-- A completed window applied the commits labelled one above the other from the
old epoch on, and every label in it is now stale. -/
theorem completed_window {group middle : G} {front : Window} {localEpoch reached : UInt64}
    (completed : applyCommitWindow group front localEpoch = (.ok (), middle, reached)) :
    (∀ entry ∈ front, entry.1 ≤ reached) ∧ localEpoch ≤ reached ∧
      ∃ applied, Accepts group applied middle ∧ List.Sublist (numbered localEpoch.toNat applied) front ∧
        reached.toNat = localEpoch.toNat + applied.length := by
  induction front generalizing group localEpoch with
  | nil =>
      simp only [applyCommitWindow, Prod.mk.injEq, true_and] at completed
      obtain ⟨rfl, rfl⟩ := completed
      exact ⟨by simp, UInt64.le_refl _, [], .none group, List.Sublist.refl [], rfl⟩
  | cons entry rest ih =>
      rcases entry_cases group localEpoch entry with
        stale | ⟨larger, gap⟩ | ⟨larger, successor, e, after, answer⟩ | ⟨larger, successor, after, answer⟩
      · rw [applyCommitWindow_stale rest stale] at completed
        obtain ⟨passed, grown, applied, accepts, labels, count⟩ := ih completed
        have head := UInt64.le_trans stale grown
        exact ⟨List.forall_mem_cons.mpr ⟨head, passed⟩, grown, applied, accepts, labels.cons _, count⟩
      · rw [applyCommitWindow_gap rest larger gap] at completed
        cases completed
      · rw [applyCommitWindow_rejected rest larger successor answer] at completed
        cases completed
      · rw [applyCommitWindow_accepted rest larger successor answer] at completed
        obtain ⟨passed, grown, applied, accepts, labels, count⟩ := ih completed
        have label := toNat_succ_of_lt larger
        have head : (UInt64.ofNat (localEpoch.toNat + 1), entry.2) = entry := by
          rw [← label, UInt64.ofNat_toNat, ← successor]
        refine ⟨List.forall_mem_cons.mpr ⟨successor ▸ grown, passed⟩, ?_, entry.2 :: applied,
          .commit answer accepts, ?_, ?_⟩
        · rw [UInt64.le_iff_toNat_le] at grown ⊢
          omega
        · rw [numbered, head, ← label]
          exact labels.cons_cons _
        · rw [count, label, List.length_cons]
          omega

/-- A window of stale labels changes nothing. -/
theorem stale_window (group : G) {window : Window} {localEpoch : UInt64}
    (stale : ∀ entry ∈ window, entry.1 ≤ localEpoch) :
    applyCommitWindow group window localEpoch = (.ok (), group, localEpoch) := by
  induction window with
  | nil => rfl
  | cons entry rest ih =>
      rw [applyCommitWindow_stale rest (stale entry List.mem_cons_self)]
      exact ih fun later member => stale later (List.mem_cons_of_mem entry member)

/-! ### What a call did -/

/-- A group that refuses a commit is left as it was. -/
def RejectsUnchanged (G : Type) {MlsError : Type} [ExportSecret G MlsError] : Prop :=
  ∀ (group next : G) (commit : Bytes) (e : MlsError),
    ExportSecret.applyCommit group commit = (.error e, next) → next = group

theorem accepts_recorded {recorded last : Recorded G} {commits : List Bytes}
    (accepts : Accepts recorded commits last) :
    Accepts recorded.group commits last.group ∧
      last.calls = recorded.calls ++ commits.map fun commit => (commit, true) := by
  induction accepts with
  | none recorded => exact ⟨.none recorded.group, by simp⟩
  | @commit recorded next last commit rest applied _ ih =>
      obtain ⟨later, calls⟩ := ih
      obtain ⟨answer, called⟩ := applyCommit_inner applied
      refine ⟨.commit answer later, ?_⟩
      rw [calls, called, List.map_cons, List.append_assoc]
      rfl

/-- The commit a call asked for last and did not get. -/
def refused (back : Window) : Except (CommitWindowError MlsError) Unit → List Bytes
  | .error (.mlsError _) => (back.take 1).map fun entry => entry.2
  | _ => []

section Stops
variable {group : G} {localEpoch : UInt64} {back : Window}
  {outcome : Except (CommitWindowError MlsError) Unit × G × UInt64}

/-- A call that stops leaves the group of its completed front, unless the group
changes when it refuses a commit. -/
theorem Stop.unchanged (rejects : RejectsUnchanged G) (stop : Stop group localEpoch back outcome) :
    outcome.2.1 = group := by
  cases stop with
  | finished => rfl
  | gap => rfl
  | rejected _ answer => exact rejects _ _ _ _ answer

theorem Stop.localEpoch_eq (stop : Stop group localEpoch back outcome) : outcome.2.2 = localEpoch := by
  cases stop <;> rfl

/-- Started where it stopped, the rest of the window stops there again. -/
theorem Stop.again (stop : Stop group localEpoch back outcome) :
    applyCommitWindow group back localEpoch = outcome := by
  cases stop with
  | finished => rfl
  | gap larger beyond => exact applyCommitWindow_gap _ larger beyond
  | rejected larger answer => exact applyCommitWindow_rejected _ larger rfl answer

end Stops

section RecordedStops
variable {group : Recorded G} {localEpoch : UInt64} {back : Window}
  {outcome : Except (CommitWindowError MlsError) Unit × Recorded G × UInt64}

theorem Stop.calls (stop : Stop group localEpoch back outcome) :
    outcome.2.1.calls = group.calls ++ (refused back outcome.1).map fun commit => (commit, false) := by
  cases stop with
  | finished => exact (List.append_nil _).symm
  | gap => exact (List.append_nil _).symm
  | rejected _ answer => exact (applyCommit_inner answer).2

/-- Forgetting the record of a stopped call. -/
theorem Stop.erase (stop : Stop group localEpoch back outcome) :
    Stop group.group localEpoch back (outcome.1, outcome.2.1.group, outcome.2.2) := by
  cases stop with
  | finished => exact .finished
  | gap larger beyond => exact .gap larger beyond
  | rejected larger answer => exact .rejected larger (applyCommit_inner answer).1

end RecordedStops

/-- Every call is exactly once: it asks for commits in label order without a gap,
counts those it got, and stops at the first gap or refusal with the group that
goes with its count. A second call with the same window repeats the first. -/
theorem apply_commit_window_exactly_once (group : G) (window : Window) (localEpoch : UInt64) :
    let outcome := applyCommitWindow group window localEpoch
    let recorded := applyCommitWindow (record group) window localEpoch
    ∃ (front back : Window) (applied : List Bytes) (middle : G),
      window = front ++ back ∧
      applyCommitWindow group front localEpoch = (.ok (), middle, outcome.2.2) ∧
      Stop middle outcome.2.2 back outcome ∧
      Accepts group applied middle ∧
      List.Sublist (numbered localEpoch.toNat applied) front ∧
      outcome.2.2.toNat = localEpoch.toNat + applied.length ∧
      outcome = (recorded.1, recorded.2.1.group, recorded.2.2) ∧
      recorded.2.1.calls = applied.map (fun commit => (commit, true)) ++
        (refused back outcome.1).map (fun commit => (commit, false)) ∧
      applyCommitWindowChecked group window localEpoch = some outcome ∧
      (RejectsUnchanged G → outcome.2.1 = middle ∧
        applyCommitWindow outcome.2.1 window outcome.2.2 = outcome) := by
  intro outcome recorded
  have erased : outcome = (recorded.1, recorded.2.1.group, recorded.2.2) :=
    erase_window window (record group) localEpoch
  -- The split is found for the recording group and read off for the plain one.
  obtain ⟨front, back, middle, reached, split, completed, stop⟩ :=
    window_stops (record group) window localEpoch
  obtain ⟨passed, _, applied, accepts, labels, count⟩ := completed_window completed
  obtain ⟨accepted, calls⟩ := accepts_recorded accepts
  have plain : Stop middle.group reached back outcome := by
    rw [erased]
    exact stop.erase
  have stopped : outcome.2.2 = reached := plain.localEpoch_eq
  refine ⟨front, back, applied, middle.group, split, ?_, stopped ▸ plain, accepted, labels, ?_, erased, ?_,
    applyCommitWindowChecked_eq group window localEpoch, fun rejects => ⟨plain.unchanged rejects, ?_⟩⟩
  · have front_erased := erase_window front (record group) localEpoch
    rw [completed] at front_erased
    rw [stopped]
    exact front_erased
  · rw [stopped]
    exact count
  · rw [stop.calls, calls, erased]
    rfl
  · rw [plain.unchanged rejects, stopped, split,
      applyCommitWindow_append (stale_window middle.group passed) back]
    exact plain.again

end Call

theorem rejects_unchanged {G Message MlsError : Type} [MlsGroup G Message MlsError] [LawfulProcess G] :
    RejectsUnchanged G := by
  intro group next commit e applied
  simp only [ExportSecret.applyCommit, applyCommit] at applied
  cases message : MlsGroup.fromBytes G commit with
  | error refusal =>
      simp only [message, Prod.mk.injEq] at applied
      exact applied.2.symm
  | ok message' =>
      rcases processed : MlsGroup.processIncomingMessage group message' with ⟨answer, after⟩
      cases answer with
      | error refusal =>
          simp only [message, processed, Prod.mk.injEq] at applied
          rw [← applied.2]
          exact LawfulProcess.reject_unchanged _ _ _ _ processed
      | ok kind => simp [message, processed] at applied

/-- A repeated label, a commit of another epoch and a label beyond it. -/
def mangled : Window :=
  [(1, CounterGroup.commitOf 0), (1, [7]), (2, CounterGroup.commitOf 0), (CounterGroup.last, [])]

theorem apply_commit_window_exactly_once_mangled :
    (applyCommitWindow CounterGroup.fresh mangled 0).2.2 = 1 ∧
      applyCommitWindow (applyCommitWindow CounterGroup.fresh mangled 0).2.1 mangled
        (applyCommitWindow CounterGroup.fresh mangled 0).2.2 =
          applyCommitWindow CounterGroup.fresh mangled 0 := by
  have once := apply_commit_window_exactly_once CounterGroup.fresh mangled 0
  obtain ⟨_, _, _, _, _, _, _, _, _, _, _, _, _, again⟩ := once
  exact ⟨by decide, (again rejects_unchanged).2⟩

/-! ### One window in several datagrams -/

theorem windowBytes_increasing {G : Type} (log : CommitLog G) :
    log.windowBytes.Pairwise (fun one two => one.1 < two.1) :=
  log.commitLog.ordered.filter _

section Split
variable {G MlsError : Type} [ExportSecret G MlsError]

/-- A window that starts with a gap does nothing. -/
theorem beyond_window (group : G) {window : Window} {localEpoch : UInt64}
    (beyond : ∀ entry ∈ window, localEpoch.toNat + 1 < entry.1.toNat) :
    (applyCommitWindow group window localEpoch).2 = (group, localEpoch) := by
  cases window with
  | nil => rfl
  | cons entry rest =>
      have head := beyond entry List.mem_cons_self
      have larger : ¬ entry.1 ≤ localEpoch := by
        rw [UInt64.le_iff_toNat_le]
        omega
      have gap : entry.1 ≠ localEpoch + 1 := by
        intro same
        rw [same, toNat_succ_of_lt larger] at head
        exact Nat.lt_irrefl _ head
      rw [applyCommitWindow_gap rest larger gap]

/-- While labels increase, a window may be cut anywhere: what follows an error is
beyond the entry that caused it. -/
theorem window_split {front back : Window}
    (increasing : (front ++ back).Pairwise (fun one two => one.1 < two.1)) (group : G) (localEpoch : UInt64) :
    (applyCommitWindow (applyCommitWindow group front localEpoch).2.1 back
        (applyCommitWindow group front localEpoch).2.2).2 =
      (applyCommitWindow group (front ++ back) localEpoch).2 := by
  obtain ⟨done, left, middle, reached, rfl, completed, stop⟩ := window_stops group front localEpoch
  have order := (List.pairwise_append.mp increasing).2.2
  rw [List.append_assoc, applyCommitWindow_append completed]
  rw [applyCommitWindow_append completed] at stop ⊢
  -- The entry that stopped the front stands before every entry of the back.
  have behind : ∀ entry ∈ left, ∀ later ∈ back, entry.1.toNat < later.1.toNat := by
    intro entry member later after
    exact UInt64.lt_iff_toNat_lt.mp (order entry (List.mem_append_right done member) later after)
  generalize outcome : applyCommitWindow middle left reached = result at stop ⊢
  cases stop with
  | finished => rfl
  | @gap epoch commitBytes rest larger beyond =>
      have apart : reached.toNat + 1 < epoch.toNat := by
        have successor := toNat_succ_of_lt larger
        rw [UInt64.le_iff_toNat_le] at larger
        rw [ne_eq, ← UInt64.toNat_inj, successor] at beyond
        omega
      rw [List.cons_append, applyCommitWindow_gap _ larger beyond]
      apply beyond_window
      intro later after
      exact apart.trans (behind _ List.mem_cons_self later after)
  | @rejected commitBytes rest after e larger answer =>
      rw [List.cons_append, applyCommitWindow_rejected _ larger rfl answer]
      apply beyond_window
      intro later member
      have next := behind _ List.mem_cons_self later member
      rwa [toNat_succ_of_lt larger] at next

/-- Buckets applied one call at a time, errors ignored. -/
theorem buckets_split {buckets : List Window}
    (increasing : buckets.flatten.Pairwise (fun one two => one.1 < two.1)) (bob : Receiver G) :
    let split := buckets.foldl (fun bob bucket => commitSink bucket bob) bob
    (split.group, split.localEpoch) = (applyCommitWindow bob.group buckets.flatten bob.localEpoch).2 := by
  induction buckets generalizing bob with
  | nil => rfl
  | cons bucket rest ih =>
      rw [List.flatten_cons] at increasing ⊢
      rw [← window_split increasing]
      exact ih (List.pairwise_append.mp increasing).2.1 (commitSink bucket bob)

theorem receive_datagrams {buckets : List Window}
    (carried : ∀ bucket ∈ buckets, decodeTranscript (encodeTranscript bucket usizeMax) = .ok bucket)
    (bob : Receiver G) :
    (buckets.map datagramOf).foldl (fun bob datagram => receive datagram bob) bob =
      buckets.foldl (fun bob bucket => commitSink bucket bob) bob := by
  induction buckets generalizing bob with
  | nil => rfl
  | cons bucket rest ih =>
      rw [List.map_cons, List.foldl_cons, List.foldl_cons,
        receive_datagramOf (carried bucket List.mem_cons_self)]
      exact ih (fun later member => carried later (List.mem_cons_of_mem bucket member)) _

/-- The receiver cannot tell in how many datagrams a window came, whichever sends
the socket refuses. -/
theorem split_delivery_transparent {IoError : Type} {window : Window}
    (increasing : window.Pairwise (fun one two => one.1 < two.1)) (socket : PreambleSocket) (totalBudget : Nat)
    (sendTo : Nat → Except IoError Unit) (bob : Receiver G) :
    let datagrams := (socket.sendPreamble window totalBudget sendTo).1
    let split := datagrams.foldl (fun bob datagram => receive datagram bob) bob
    ∃ buckets, buckets <+: bucketWindow window totalBudget (MAX_DATAGRAM_PAYLOAD - 1) ∧
      ((∀ k, sendTo k = .ok ()) → buckets = bucketWindow window totalBudget (MAX_DATAGRAM_PAYLOAD - 1)) ∧
      datagrams = buckets.map datagramOf ∧
      (split.group, split.localEpoch) = (applyCommitWindow bob.group buckets.flatten bob.localEpoch).2 := by
  intro datagrams split
  obtain ⟨buckets, front, sent, whole⟩ := sendPreamble_sent socket window totalBudget sendTo
  have cut : buckets.flatten <+: window := by
    have before := sentPrefix_isPrefix window totalBudget (MAX_DATAGRAM_PAYLOAD - 1)
    rw [← bucketWindow_flatten] at before
    exact front.flatten.trans before
  have carried : ∀ bucket ∈ buckets, decodeTranscript (encodeTranscript bucket usizeMax) = .ok bucket :=
    fun bucket member => (carried_bucketWindow window totalBudget (front.subset member)).2
  refine ⟨buckets, front, whole, sent, ?_⟩
  have received : split = buckets.foldl (fun bob bucket => commitSink bucket bob) bob := by
    change datagrams.foldl _ bob = _
    rw [show datagrams = buckets.map datagramOf from sent]
    exact receive_datagrams carried bob
  rw [received]
  exact buckets_split (increasing.sublist cut.sublist) bob

end Split

/-- The middle entry is no commit and fills a datagram, so each entry has its own. -/
def scattered : Window :=
  [(1, CounterGroup.commitOf 0), (2, List.replicate 1170 7), (3, CounterGroup.commitOf 1)]

theorem split_delivery_transparent_scattered :
    let datagrams := (PreambleSocket.new.sendPreamble scattered usizeMax fun _ => Except.ok (ε := Unit) ()).1
    datagrams.length = 3 ∧
      (datagrams.foldl (fun bob datagram => receive datagram bob)
        (Receiver.new CounterGroup.fresh)).localEpoch = 1 := by
  intro datagrams
  have increasing : scattered.Pairwise (fun one two => one.1 < two.1) := by decide
  obtain ⟨buckets, _, whole, sent, same⟩ := split_delivery_transparent increasing PreambleSocket.new usizeMax
    (fun _ => Except.ok (ε := Unit) ()) (Receiver.new CounterGroup.fresh)
  have packed : bucketWindow scattered usizeMax (MAX_DATAGRAM_PAYLOAD - 1) =
      scattered.map fun entry => [entry] := by decide +kernel
  rw [whole (fun _ => rfl), packed] at sent same
  have applied : (applyCommitWindow CounterGroup.fresh scattered 0).2.2 = 1 := by decide +kernel
  refine ⟨?_, (Prod.mk.inj same).2.trans applied⟩
  rw [show datagrams = _ from sent, List.length_map, List.length_map]
  rfl

end QuicMls.CommitWindow
