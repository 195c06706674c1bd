import QuicMls.CatchUpSafety

/-! Recovery: what one full send of the window does to a receiver that lags. The
two groups are related by an arbitrary relation that `mls_rs` maintains, so that
the receiver's group is the sender's as it was `pending` commits ago. -/
namespace QuicMls.Recovery
open BigEndian Groups Budget Transcript Preamble Control CommitHistory Recording CatchUp CatchUpSafety

variable {GA MA EA : Type} [MlsGroup GA MA EA] {GB MB EB : Type} [MlsGroup GB MB EB]

/-- A member in the same state accepts the commit another member makes, and both
end in the same state again. -/
structure Interop (Same : GA → GB → Prop) : Prop where
  epoch : ∀ sender receiver, Same sender receiver →
    MlsGroup.currentEpoch sender = MlsGroup.currentEpoch receiver
  accepts : ∀ sender receiver commit next, Same sender receiver →
    createCommit sender = (.ok commit, next) →
      ∃ after, applyCommit receiver commit = (.ok (), after) ∧ Same next after

/-- A group makes these commits, oldest first. -/
inductive Produces : GA → List Bytes → GA → Prop
  | none (group : GA) : Produces group [] group
  | commit {group next last : GA} {commit : Bytes} {rest : List Bytes}
      (made : createCommit group = (.ok commit, next)) (later : Produces next rest last) :
      Produces group (commit :: rest) last

theorem Produces.concat {group middle last : GA} {commits : List Bytes} {commit : Bytes}
    (earlier : Produces group commits middle) (made : createCommit middle = (.ok commit, last)) :
    Produces group (commits ++ [commit]) last := by
  induction earlier with
  | none group => exact .commit made (.none last)
  | commit first _ ih => exact .commit first (ih made)

/-- The receiver misses exactly the pending commits. -/
def Behind (Same : GA → GB → Prop) (pending : List Bytes) (sender : GA) (receiver : GB) : Prop :=
  ∃ middle, Same middle receiver ∧ Produces middle pending sender

theorem Behind.accept {Same : GA → GB → Prop} (interop : Interop Same) {commit : Bytes}
    {pending : List Bytes} {sender : GA} {receiver : GB}
    (behind : Behind Same (commit :: pending) sender receiver) :
    ∃ after, applyCommit receiver commit = (.ok (), after) ∧ Behind Same pending sender after := by
  obtain ⟨middle, same, produces⟩ := behind
  cases produces with
  | commit made later =>
      obtain ⟨after, applied, kept⟩ := interop.accepts middle receiver commit _ same made
      exact ⟨after, applied, _, kept, later⟩

theorem drop_of_quoted {history : List Bytes} {index : Nat} {commit : Bytes}
    (quoted : history[index]? = some commit) : history.drop index = commit :: history.drop (index + 1) := by
  obtain ⟨inside, same⟩ := List.getElem?_eq_some_iff.mp quoted
  rw [List.drop_eq_getElem_cons inside, same]

/-- Counters at one epoch are interoperable. -/
theorem counter_interop : Interop fun left right : CounterGroup => left.epoch = right.epoch where
  epoch _ _ same := same
  accepts sender receiver commit next same created := by
    simp only [createCommit, MlsGroup.commit, MlsGroup.applyPendingCommit, MlsGroup.toBytes, true_and] at created
    by_cases more : sender.epoch < CounterGroup.last
    · simp only [more, if_true, Prod.mk.injEq, Except.ok.injEq] at created
      obtain ⟨rfl, rfl⟩ := created
      refine ⟨receiver.advance, ?_, ?_⟩
      · simp [applyCommit, MlsGroup.fromBytes, MlsGroup.processIncomingMessage, CounterGroup.process,
          ← same, more]
      · simp [CounterGroup.advance, same]
    · simp [more] at created

/-! ### One window -/

theorem window_mono {G E : Type} [ExportSecret G E] (window : Window) (group : G) (localEpoch : UInt64) :
    localEpoch.toNat ≤ (applyCommitWindow group window localEpoch).2.2.toNat := by
  induction window generalizing group localEpoch with
  | nil => exact Nat.le_refl _
  | cons entry rest ih =>
      rcases entry_cases group localEpoch entry with
        stale | ⟨larger, gap⟩ | ⟨larger, successor, e, after, answer⟩ | ⟨larger, successor, after, answer⟩
      · rw [applyCommitWindow_stale rest stale]
        exact ih group localEpoch
      · rw [applyCommitWindow_gap rest larger gap]
      · rw [applyCommitWindow_rejected rest larger successor answer]
      · rw [applyCommitWindow_accepted rest larger successor answer]
        have later := ih after (localEpoch + 1)
        rw [toNat_succ_of_lt larger] at later
        omega

section Window
variable {Same : GA → GB → Prop} (interop : Interop Same) {history : List Bytes} {sender : GA}
include interop

/-- A window of the sender's commits moves the receiver along the history. -/
theorem behind_window (window : Window) (group : GB) (localEpoch : UInt64)
    (quotes : Quotes (fun index commit => history[index]? = some commit) window)
    (inside : localEpoch.toNat ≤ history.length)
    (behind : Behind Same (history.drop localEpoch.toNat) sender group) :
    (applyCommitWindow group window localEpoch).2.2.toNat ≤ history.length ∧
      Behind Same (history.drop (applyCommitWindow group window localEpoch).2.2.toNat) sender
        (applyCommitWindow group window localEpoch).2.1 := by
  induction window generalizing group localEpoch with
  | nil => exact ⟨inside, behind⟩
  | cons entry rest ih =>
      obtain ⟨epoch, commitBytes⟩ := entry
      have later : Quotes (fun index commit => history[index]? = some commit) rest :=
        fun entry member => quotes entry (List.mem_cons_of_mem _ member)
      by_cases stale : epoch ≤ localEpoch
      · rw [applyCommitWindow_stale rest stale]
        exact ih group localEpoch later inside behind
      · by_cases successor : epoch = localEpoch + 1
        · have label : (localEpoch + 1).toNat = localEpoch.toNat + 1 := toNat_succ_of_lt stale
          have quoted : history[localEpoch.toNat]? = some commitBytes := by
            have entry := (quotes (epoch, commitBytes) List.mem_cons_self).2
            simpa [successor, label] using entry
          have room := (List.getElem?_eq_some_iff.mp quoted).1
          rw [drop_of_quoted quoted] at behind
          obtain ⟨after, applied, kept⟩ := behind.accept interop
          rw [applyCommitWindow_accepted rest stale successor applied]
          exact ih after (localEpoch + 1) later (by omega) (by rwa [label])
        · rw [applyCommitWindow_gap rest stale successor]
          exact ⟨inside, behind⟩

/-- A run of consecutive commits that starts no later than the receiver's
position is applied without error, up to its end. -/
theorem consecutive_window (segment : List Bytes) (start : Nat) (group : GB) (localEpoch : UInt64)
    (quoted : segment <+: history.drop start) (fits : history.length < 2 ^ 64)
    (reached : start ≤ localEpoch.toNat)
    (behind : Behind Same (history.drop localEpoch.toNat) sender group) :
    (applyCommitWindow group (numbered start segment) localEpoch).1 = .ok () ∧
      (applyCommitWindow group (numbered start segment) localEpoch).2.2.toNat =
        max localEpoch.toNat (start + segment.length) := by
  -- The receiver may be past the start: the commits it has are skipped first.
  induction segment generalizing start group localEpoch with
  | nil =>
      constructor
      · rfl
      · change localEpoch.toNat = _
        rw [List.length_nil]
        omega
  | cons commit rest ih =>
      obtain ⟨tail, split⟩ := quoted
      have here : history[start]? = some commit := by
        rw [← List.head?_drop, ← split]
        rfl
      have room := (List.getElem?_eq_some_iff.mp here).1
      have later : rest <+: history.drop (start + 1) := by
        rw [drop_of_quoted here] at split
        exact ⟨tail, (List.cons.inj split).2⟩
      have label : (UInt64.ofNat (start + 1)).toNat = start + 1 := toNat_label (by omega)
      have length : start + 1 + rest.length = start + (commit :: rest).length := by
        rw [List.length_cons]
        omega
      rw [numbered]
      by_cases stale : UInt64.ofNat (start + 1) ≤ localEpoch
      · rw [applyCommitWindow_stale _ stale, ← length]
        rw [UInt64.le_iff_toNat_le, label] at stale
        exact ih (start + 1) group localEpoch later stale behind
      -- The first commit that is not stale is the one the receiver lacks.
      · have above := stale
        rw [UInt64.le_iff_toNat_le, label] at above
        have position : localEpoch.toNat = start := by omega
        have successor : UInt64.ofNat (start + 1) = localEpoch + 1 := by
          rw [← UInt64.toNat_inj, label, toNat_succ_of_lt stale, position]
        rw [position, drop_of_quoted here] at behind
        obtain ⟨after, applied, kept⟩ := behind.accept interop
        have advanced : (localEpoch + 1).toNat = start + 1 := by rw [toNat_succ_of_lt stale, position]
        have next := ih (start + 1) after (localEpoch + 1) later (by omega) (by rwa [advanced])
        rw [applyCommitWindow_accepted _ stale successor applied]
        refine ⟨next.1, ?_⟩
        rw [next.2, advanced, position, ← length]
        omega

end Window

/-! ### Whole runs -/

/-- The receiver's group is the sender's as it was before the commits that the
receiver has not applied. -/
def Lags (Same : GA → GB → Prop) (system : System (Recorded GA) (Recorded GB)) : Prop :=
  Behind Same (system.alice.inner.created.drop system.bob.localEpoch.toNat)
    system.alice.inner.group system.bob.group.group

/-- What every honest run keeps. -/
def Followed (Same : GA → GB → Prop) (origin : Nat) (system : System (Recorded GA) (Recorded GB)) : Prop :=
  (∃ abstract, Refines origin system abstract) ∧ Lags Same system ∧ heapBytes system.alice ≤ usizeMax

section Runs
variable {Same : GA → GB → Prop} {origin : Nat} {system after : System (Recorded GA) (Recorded GB)}
  {action : Action}

theorem localEpoch_le {abstract : LogShipping.State Bytes} (refines : Refines origin system abstract) :
    system.bob.localEpoch.toNat ≤ system.alice.inner.created.length := by
  have ahead := refines.safe.applied_isPrefix.length_le
  rwa [refines.tracks.position, refines.history] at ahead

theorem quotes_created {abstract : LogShipping.State Bytes} (refines : Refines origin system abstract)
    {datagram : Bytes} (inFlight : datagram ∈ system.datagrams) :
    ∃ bucket, datagram = datagramOf bucket ∧
      decodeTranscript (encodeTranscript bucket usizeMax) = .ok bucket ∧
      Quotes (fun index commit => system.alice.inner.created[index]? = some commit) bucket := by
  obtain ⟨bucket, same, decoded, quotes⟩ := refines.datagrams datagram inFlight
  refine ⟨bucket, same, decoded, ?_⟩
  intro entry member
  obtain ⟨positive, offered⟩ := quotes entry member
  exact ⟨positive, refines.history ▸ refines.safe.genuine _ _ offered⟩

theorem Lags.step (interop : Interop Same) {abstract : LogShipping.State Bytes} (lags : Lags Same system)
    (refines : Refines origin system abstract) (permitted : honest system action)
    (taken : CatchUp.step system action = some after) : Lags Same after := by
  by_cases commits : action = .createCommit
  · subst commits
    obtain ⟨commit, made, _, frame⟩ := step_createCommit taken
    obtain ⟨created, advanced⟩ := created_recorded (CommitLog.createCommit_ok made).1
    have bob : after.bob = system.bob := by rw [frame]
    obtain ⟨middle, same, produces⟩ := lags
    refine ⟨middle, ?_, ?_⟩
    · rwa [bob]
    · rw [created, bob, List.drop_append_of_le_length (localEpoch_le refines)]
      exact produces.concat advanced
  · have inner := step_inner commits taken
    rcases step_bob taken with same | ⟨datagram, received, delivered⟩
    · rw [Lags, inner, same]
      exact lags
    · rcases delivered with ⟨rfl, inFlight⟩ | rfl
      · obtain ⟨bucket, rfl, decoded, quotes⟩ := quotes_created refines inFlight
        have moved := (behind_window interop bucket system.bob.group.group system.bob.localEpoch quotes
          (localEpoch_le refines) lags).2
        rw [erase_window] at moved
        rw [Lags, inner, received, receive_datagramOf decoded]
        exact moved
      · exact permitted.elim

theorem Followed.step [LawfulCommit GA] (interop : Interop Same) (followed : Followed Same origin system)
    (permitted : honest system action) (taken : CatchUp.step system action = some after) :
    Followed Same origin after := by
  obtain ⟨⟨abstract, refines⟩, lags, room⟩ := followed
  obtain ⟨next, _, refined⟩ := follows refines permitted taken
  exact ⟨⟨next, refined⟩, lags.step interop refines permitted taken, heapBytes_le_of_step room taken⟩

theorem followed_of_run [LawfulCommit GA] (interop : Interop Same) {groupA : GA} {groupB : GB}
    (same : Same groupA groupB)
    (run : Machine.Reachable CatchUp.step honest (initial (record groupA) (record groupB)) system) :
    Followed Same (MlsGroup.currentEpoch groupA).toNat system := by
  apply run.invariant
  · exact ⟨⟨_, initial_refines groupA groupB⟩, ⟨groupA, same, .none groupA⟩, Nat.zero_le _⟩
  · intro before action after followed permitted taken
    exact followed.step interop permitted taken

end Runs

end QuicMls.Recovery
