import QuicMls.CatchUp

/-! The catch-up system implements the shipped log: the sender's history is the
leader's, the receiver's position is the follower's, every datagram in flight
quotes the history and every report in flight acknowledges a prefix. -/
namespace QuicMls.CatchUpSafety
open BigEndian Groups Transcript Preamble Control CommitHistory Recording CatchUp

variable {GA Message EA : Type} [MlsGroup GA Message EA] {GB EB : Type} [ExportSecret GB EB]

/-- A datagram that carries offered commits. -/
def Carries (offered : Nat → Bytes → Prop) (datagram : Bytes) : Prop :=
  ∃ bucket, datagram = datagramOf bucket ∧
    decodeTranscript (encodeTranscript bucket usizeMax) = .ok bucket ∧ Quotes offered bucket

/-- A message that reports an acknowledged position. -/
def Acknowledges (acknowledged : Nat → Prop) (message : Bytes) : Prop :=
  ∃ k : UInt64, message = encode (.report k) ∧ acknowledged k.toNat

structure Refines (origin : Nat) (system : System (Recorded GA) (Recorded GB))
    (abstract : LogShipping.State Bytes) : Prop where
  safe : LogShipping.Safe abstract
  history : abstract.history = system.alice.inner.created
  log : Represents system.alice abstract.history
  epoch : (MlsGroup.currentEpoch system.alice.inner.group).toNat = origin + abstract.history.length
  tracks : Tracks abstract system.bob.group system.bob.localEpoch
  published : system.bob.epochTx = system.bob.localEpoch
  datagrams : ∀ datagram ∈ system.datagrams, Carries abstract.offered datagram
  reports : ∀ message ∈ system.reports, Acknowledges abstract.acknowledged message
  trimmed : abstract.trimmed = system.alice.checkpoint.toNat

theorem initial_refines (groupA : GA) (groupB : GB) :
    Refines (MlsGroup.currentEpoch groupA).toNat (initial (record groupA) (record groupB))
      LogShipping.initial where
  safe := LogShipping.initial_safe
  history := rfl
  log := Represents.new (record groupA)
  epoch := rfl
  tracks := ⟨rfl, rfl, .none⟩
  published := rfl
  datagrams := fun _ absurd => by simp [initial] at absurd
  reports := fun _ absurd => by simp [initial] at absurd
  trimmed := rfl

section Moves
variable {origin : Nat} {system after : System (Recorded GA) (Recorded GB)}
  {abstract : LogShipping.State Bytes}

/-- The commits of a window, as the leader offers them. -/
def offeredBy (window : Window) (index : Nat) (commit : Bytes) : Prop :=
  ∃ entry ∈ window, entry.1.toNat = index + 1 ∧ entry.2 = commit

theorem quotes_offeredBy {window bucket : Window} (part : bucket ⊆ window)
    (positive : ∀ entry ∈ window, 0 < entry.1.toNat) : Quotes (offeredBy window) bucket := by
  intro entry member
  have label := positive entry (part member)
  exact ⟨label, entry, part member, by omega, rfl⟩

theorem window_quotes (log : Represents system.alice abstract.history) :
    (∀ entry ∈ system.alice.windowBytes, 0 < entry.1.toNat) ∧
    ∀ index commit, offeredBy system.alice.windowBytes index commit →
      abstract.history[index]? = some commit := by
  rw [log.window_bytes]
  refine ⟨fun entry member => ?_, ?_⟩
  · have above := ((mem_numbered log.suffix_fits).mp member).1
    omega
  · rintro index commit ⟨entry, member, label, rfl⟩
    obtain ⟨above, quoted⟩ := (mem_numbered log.suffix_fits).mp member
    have shift : system.alice.checkpoint.toNat +
        (entry.1.toNat - (system.alice.checkpoint.toNat + 1)) = index := by omega
    rwa [List.getElem?_drop, shift] at quoted

theorem follows_createCommit [LawfulCommit GA] (refines : Refines origin system abstract)
    (taken : step system .createCommit = some after) :
    ∃ next, Relation.ReflTransGen LogShipping.Move abstract next ∧ Refines origin after next := by
  obtain ⟨commit, made, _, frame⟩ := step_createCommit taken
  obtain ⟨created, advanced⟩ := created_recorded (CommitLog.createCommit_ok made).1
  have epoch := create_commit_advances advanced
  -- The epoch counts in a word and bounds the history, so the label cannot wrap.
  have bound := (MlsGroup.currentEpoch after.alice.inner.group).toNat_lt
  have before := refines.epoch
  obtain ⟨log, checkpoint⟩ := refines.log.create_commit made (by omega)
  have move := LogShipping.Move.produce abstract commit
  refine ⟨_, .single move, ?_⟩
  rw [frame]
  exact
    { safe := move.safe refines.safe
      history := by rw [refines.history]; exact created.symm
      log
      epoch := by rw [epoch, before, List.length_append]; rfl
      tracks := ⟨refines.tracks.applied, refines.tracks.position, refines.tracks.ordered.grows commit⟩
      published := refines.published
      datagrams := refines.datagrams
      reports := refines.reports
      trimmed := by rw [checkpoint]; exact refines.trimmed }

theorem follows_sendPreamble (refines : Refines origin system abstract) {totalBudget : Nat}
    {sendTo : Nat → Except String Unit}
    (taken : step system (.sendPreamble totalBudget sendTo) = some after) :
    ∃ next, Relation.ReflTransGen LogShipping.Move abstract next ∧ Refines origin after next := by
  obtain rfl := Option.some.inj taken
  obtain ⟨positive, genuine⟩ := window_quotes refines.log
  have move := LogShipping.Move.offer abstract (offeredBy system.alice.windowBytes) genuine
  refine ⟨_, .single move, { refines with safe := move.safe refines.safe, tracks := ?_, datagrams := ?_ }⟩
  · exact ⟨refines.tracks.applied, refines.tracks.position, refines.tracks.ordered⟩
  · intro datagram member
    rcases List.mem_append.mp member with old | fresh
    · obtain ⟨bucket, same, decoded, quotes⟩ := refines.datagrams datagram old
      exact ⟨bucket, same, decoded,
        fun entry within => ⟨(quotes entry within).1, .inl (quotes entry within).2⟩⟩
    · obtain ⟨bucket, packed, same⟩ := mem_sendPreamble _ _ _ _ fresh
      have part : bucket ⊆ system.alice.windowBytes := fun entry within =>
        (sentPrefix_isPrefix _ totalBudget _).subset
          (bucketWindow_flatten _ totalBudget _ ▸ List.mem_flatten_of_mem packed within)
      have quotes := quotes_offeredBy part positive
      exact ⟨bucket, same, (carried_bucketWindow _ _ packed).2,
        fun entry within => ⟨(quotes entry within).1, .inr (quotes entry within).2⟩⟩

theorem follows_deliver (refines : Refines origin system abstract) {datagram : Bytes}
    (taken : step system (.deliver datagram) = some after) :
    ∃ next, Relation.ReflTransGen LogShipping.Move abstract next ∧ Refines origin after next := by
  simp only [step] at taken
  split at taken
  · rename_i inFlight
    obtain rfl := Option.some.inj taken
    obtain ⟨bucket, rfl, decoded, quotes⟩ := refines.datagrams datagram inFlight
    -- One datagram may carry many commits: it is matched by a path, not by one move.
    obtain ⟨next, path, tracks, frame⟩ := window_moves bucket system.bob.group system.bob.localEpoch
      abstract refines.tracks refines.safe.genuine quotes
    have history : next.history = abstract.history := by rw [frame]
    have offered : next.offered = abstract.offered := by rw [frame]
    have acknowledged : next.acknowledged = abstract.acknowledged := by rw [frame]
    have trimmed : next.trimmed = abstract.trimmed := by rw [frame]
    refine ⟨next, path, ?_⟩
    rw [receive_datagramOf decoded]
    exact
      { safe := refines.safe.along path
        history := history.trans refines.history
        log := history ▸ refines.log
        epoch := history ▸ refines.epoch
        tracks
        published := commitSink_published bucket refines.published
        datagrams := offered ▸ refines.datagrams
        reports := acknowledged ▸ refines.reports
        trimmed := trimmed.trans refines.trimmed }
  · cases taken

theorem follows_sendReport (refines : Refines origin system abstract)
    (taken : step system .sendReport = some after) :
    ∃ next, Relation.ReflTransGen LogShipping.Move abstract next ∧ Refines origin after next := by
  obtain rfl := Option.some.inj taken
  have move := LogShipping.Move.acknowledge abstract
  refine ⟨_, .single move, { refines with safe := move.safe refines.safe, tracks := ?_, reports := ?_ }⟩
  · exact ⟨refines.tracks.applied, refines.tracks.position, refines.tracks.ordered⟩
  · intro message member
    rcases List.mem_append.mp member with old | fresh
    · obtain ⟨k, same, acknowledged⟩ := refines.reports message old
      exact ⟨k, same, .inl acknowledged⟩
    · obtain rfl := List.mem_singleton.mp fresh
      exact ⟨system.bob.epochTx, rfl, .inr (by rw [refines.published, refines.tracks.position])⟩

theorem follows_receiveReport (refines : Refines origin system abstract) {message : Bytes}
    (taken : step system (.receiveReport message) = some after) :
    ∃ next, Relation.ReflTransGen LogShipping.Move abstract next ∧ Refines origin after next := by
  simp only [step] at taken
  split at taken
  · rename_i inFlight
    obtain ⟨k, rfl, acknowledged⟩ := refines.reports message inFlight
    have read := reportReceiverStep_report system.alice k []
    rw [List.append_nil] at read
    rw [read] at taken
    obtain rfl := Option.some.inj taken
    obtain ⟨log, inner, checkpoint⟩ := refines.log.trim k
    have move := LogShipping.Move.trim abstract k.toNat acknowledged
    refine ⟨_, .single move,
      { refines with safe := move.safe refines.safe, log, tracks := ?_, trimmed := ?_ }⟩
    · exact ⟨refines.tracks.applied, refines.tracks.position, refines.tracks.ordered⟩
    · change max abstract.trimmed (min k.toNat abstract.history.length) = _
      rw [checkpoint, refines.trimmed]
  · cases taken

/-- One honest step is matched by moves of the shipped log. -/
theorem follows [LawfulCommit GA] {action : Action} (refines : Refines origin system abstract)
    (permitted : honest system action) (taken : step system action = some after) :
    ∃ next, Relation.ReflTransGen LogShipping.Move abstract next ∧ Refines origin after next := by
  cases action with
  | createCommit => exact follows_createCommit refines taken
  | sendPreamble totalBudget sendTo => exact follows_sendPreamble refines taken
  | deliver datagram => exact follows_deliver refines taken
  | inject datagram => exact permitted.elim
  | sendReport => exact follows_sendReport refines taken
  | receiveReport message => exact follows_receiveReport refines taken

end Moves

/-- The system refines the shipped log. -/
theorem refines_of_run [LawfulCommit GA] {groupA : GA} {groupB : GB}
    {final : System (Recorded GA) (Recorded GB)}
    (run : Machine.Reachable step honest (initial (record groupA) (record groupB)) final) :
    ∃ abstract, Relation.ReflTransGen LogShipping.Move LogShipping.initial abstract ∧
      Refines (MlsGroup.currentEpoch groupA).toNat final abstract := by
  apply run.simulates (initial_refines groupA groupB)
  intro before action after abstract refines permitted taken
  exact follows refines permitted taken

/-- Catch-up safety. In every state of every honest run the sender's checkpoint
does not pass the receiver, the receiver has applied exactly the first
`localEpoch` commits and asked for nothing out of turn, and the sender still
offers every commit the receiver lacks. -/
theorem catch_up_safe [LawfulCommit GA] {groupA : GA} {groupB : GB}
    {final : System (Recorded GA) (Recorded GB)}
    (run : Machine.Reachable step honest (initial (record groupA) (record groupB)) final) :
    (final.alice.checkpoint ≤ final.bob.localEpoch ∧ final.bob.localEpoch ≤ final.alice.currentEpoch) ∧
    (final.alice.currentEpoch.toNat = final.alice.inner.created.length ∧
      accepted final.bob.group.calls = final.alice.inner.created.take final.bob.localEpoch.toNat ∧
      InOrder final.alice.inner.created final.bob.group.calls) ∧
    ∀ epoch, final.bob.localEpoch < epoch → epoch ≤ final.alice.currentEpoch →
      ∃ commit, final.alice.inner.created[epoch.toNat - 1]? = some commit ∧
        (epoch, commit) ∈ final.alice.commitLog.entries ∧ (epoch, commit) ∈ final.alice.windowBytes := by
  obtain ⟨abstract, path, refines⟩ := refines_of_run run
  have tracks := refines.tracks
  have before := refines.safe.applied_isPrefix
  have trimmed := refines.safe.trimmed_le
  have current := refines.log.current
  rw [refines.trimmed, tracks.position] at trimmed
  rw [List.prefix_iff_eq_take, tracks.position, tracks.applied, refines.history] at before
  have ahead := refines.safe.applied_isPrefix.length_le
  rw [tracks.position] at ahead
  refine ⟨⟨UInt64.le_iff_toNat_le.mpr trimmed, UInt64.le_iff_toNat_le.mpr (by omega)⟩,
    ⟨by rw [current, refines.history], before, refines.history ▸ tracks.ordered⟩, ?_⟩
  intro epoch missing made
  rw [UInt64.lt_iff_toNat_lt] at missing
  rw [UInt64.le_iff_toNat_le, current] at made
  have inside : epoch.toNat - 1 < abstract.history.length := by omega
  obtain ⟨commit, quoted⟩ : ∃ commit, abstract.history[epoch.toNat - 1]? = some commit :=
    ⟨_, List.getElem?_eq_getElem inside⟩
  -- What the follower lacks is after the trimmed prefix, and the log still holds it.
  have held := refines.safe.retained (by rw [tracks.position]; omega) quoted
  rw [refines.trimmed] at held
  have offered := refines.log.mem_window (by omega) held
  rw [refines.history] at quoted
  exact ⟨commit, quoted, offered⟩

/-- Two commits, the first one delivered twice and reported. -/
theorem catch_up_safe_delivered :
    ∃ final : System (Recorded CounterGroup) (Recorded CounterGroup),
      Machine.run step (initial (record CounterGroup.fresh) (record CounterGroup.fresh))
        [.createCommit, .sendPreamble 100 (fun _ => .ok ()),
          .deliver (datagramOf [(1, CounterGroup.commitOf 0)]), .createCommit,
          .deliver (datagramOf [(1, CounterGroup.commitOf 0)]), .sendReport,
          .receiveReport (encode (.report 1))] = some final ∧
      final.alice.checkpoint ≤ final.bob.localEpoch ∧ final.bob.localEpoch ≤ final.alice.currentEpoch := by
  cases ran : Machine.run step (initial (record CounterGroup.fresh) (record CounterGroup.fresh))
      [.createCommit, .sendPreamble 100 (fun _ => .ok ()),
        .deliver (datagramOf [(1, CounterGroup.commitOf 0)]), .createCommit,
        .deliver (datagramOf [(1, CounterGroup.commitOf 0)]), .sendReport,
        .receiveReport (encode (.report 1))] with
  | none => exact absurd ran (by decide +kernel)
  | some final =>
      have run : Machine.Reachable step honest _ final :=
        Machine.reachable_of_run _ _ (by simp [honest]) ran
      exact ⟨final, rfl, (catch_up_safe run).1⟩

end QuicMls.CatchUpSafety
