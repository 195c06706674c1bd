import QuicMls.CommitHistory

/-! Runs of a `CommitLog`: commits that succeed or fail, and reports in any order.
The bytes that were returned are kept beside the log, so that the log can be read
as the part of them after its checkpoint. -/
namespace QuicMls.CommitLogRuns
open BigEndian Groups CommitHistory

/-- A commit that is made moves the group to a later epoch, and one that fails
does not take it back. -/
def Counts {G MlsError : Type} [ExportSecret G MlsError] (epoch : G → UInt64) : Prop :=
  ∀ (group next : G) (result : Except MlsError Bytes), ExportSecret.createCommit group = (result, next) →
    (epoch group).toNat ≤ (epoch next).toNat ∧
      (result.toBool = true → (epoch group).toNat < (epoch next).toNat)

/-- MLS numbers the epochs of a group with 64 bits. -/
class EpochNumbered (G : Type) {MlsError : Type} [ExportSecret G MlsError] : Prop where
  counts : ∃ epoch : G → UInt64, Counts epoch

inductive LogCall where
  | createCommit
  | trim (reportedK : UInt64)

/-- A log and the bytes its commits returned, oldest first. -/
structure Ledger (G : Type) where
  log : CommitLog G
  returned : List Bytes

def Ledger.start {G : Type} (inner : G) : Ledger G := { log := CommitLog.new inner, returned := [] }

section Runs
variable {G MlsError : Type} [ExportSecret G MlsError]

def Ledger.call (ledger : Ledger G) : LogCall → Ledger G
  | .createCommit =>
      match ledger.log.createCommit with
      | (.ok bytes, log) => { log, returned := ledger.returned ++ [bytes] }
      | (.error _, log) => { ledger with log }
  | .trim reportedK => { ledger with log := ledger.log.trim reportedK }

def Ledger.calls (ledger : Ledger G) (calls : List LogCall) : Ledger G := calls.foldl Ledger.call ledger

/-! ### One call -/

/-- A commit that fails leaves everything but the inner group. -/
theorem createCommit_failed {log after : CommitLog G} {e : MlsError}
    (failed : log.createCommit = (.error e, after)) :
    ExportSecret.createCommit log.inner = (.error e, after.inner) ∧
      after = { log with inner := after.inner } := by
  unfold CommitLog.createCommit at failed
  split at failed
  · rename_i made
    obtain ⟨same, rfl⟩ := Prod.mk.inj failed
    obtain rfl := Except.error.inj same
    exact ⟨made, rfl⟩
  · cases failed

/-- The log represents what was returned, and the inner group is at least as many
epochs on. -/
structure Ledger.Sound (epoch : G → UInt64) (ledger : Ledger G) : Prop where
  represents : Represents ledger.log ledger.returned
  within : ledger.returned.length ≤ (epoch ledger.log.inner).toNat

theorem start_sound (epoch : G → UInt64) (inner : G) : (Ledger.start inner).Sound epoch :=
  ⟨.new inner, Nat.zero_le _⟩

theorem Ledger.Sound.call {epoch : G → UInt64} (counts : Counts epoch)
    {ledger : Ledger G} (sound : ledger.Sound epoch) (call : LogCall) :
    (ledger.call call).Sound epoch ∧ ledger.log.checkpoint ≤ (ledger.call call).log.checkpoint := by
  obtain ⟨represents, within⟩ := sound
  cases call with
  | createCommit =>
      rw [Ledger.call]
      rcases created : ledger.log.createCommit with ⟨result, after⟩
      cases result with
      | error e =>
          obtain ⟨failed, frame⟩ := createCommit_failed created
          obtain ⟨current, below, entries⟩ := represents
          have kept := (counts _ _ _ failed).1
          refine ⟨⟨?_, within.trans kept⟩, ?_⟩
          · rw [frame]
            exact ⟨current, below, entries⟩
          · rw [frame]
      | ok bytes =>
          have advanced := (counts _ _ _ (CommitLog.createCommit_ok created).1).2 rfl
          -- The epoch of the inner group is a word, so the count of commits is one too.
          have word := (epoch after.inner).toNat_lt
          obtain ⟨grown, same⟩ := represents.create_commit created (by omega)
          refine ⟨⟨grown, ?_⟩, ?_⟩
          · rw [List.length_append, List.length_singleton]
            exact within.trans_lt advanced
          · exact same ▸ UInt64.le_refl _
  | trim reportedK =>
      obtain ⟨kept, inner, _⟩ := represents.trim reportedK
      exact ⟨⟨kept, within.trans (by rw [Ledger.call, inner])⟩, le_max_left _ _⟩

theorem Ledger.Sound.calls {epoch : G → UInt64} (counts : Counts epoch) {ledger : Ledger G}
    (sound : ledger.Sound epoch) (calls : List LogCall) :
    (ledger.calls calls).Sound epoch ∧ ledger.log.checkpoint ≤ (ledger.calls calls).log.checkpoint := by
  induction calls generalizing ledger with
  | nil => exact ⟨sound, UInt64.le_refl _⟩
  | cons call rest ih =>
      obtain ⟨kept, grown⟩ := sound.call counts call
      obtain ⟨later, higher⟩ := ih kept
      exact ⟨later, UInt64.le_trans grown higher⟩

/-! ### Reports between two commits -/

theorem foldl_max_le_iff (reports : List UInt64) (least bound : UInt64) :
    reports.foldl max least ≤ bound ↔ least ≤ bound ∧ ∀ report ∈ reports, report ≤ bound := by
  induction reports generalizing least with
  | nil => simp
  | cons report rest ih =>
      rw [List.foldl_cons, ih, max_le_iff, List.forall_mem_cons, and_assoc]

/-- The largest report depends on which reports there are, not on their order. -/
theorem foldl_max_congr {one two : List UInt64} (same : ∀ report, report ∈ one ↔ report ∈ two) :
    one.foldl max 0 = two.foldl max 0 := by
  apply le_antisymm
  · rw [foldl_max_le_iff]
    obtain ⟨least, above⟩ := (foldl_max_le_iff two 0 _).mp (le_refl _)
    exact ⟨least, fun report member => above report ((same report).mp member)⟩
  · rw [foldl_max_le_iff]
    obtain ⟨least, above⟩ := (foldl_max_le_iff one 0 _).mp (le_refl _)
    exact ⟨least, fun report member => above report ((same report).mpr member)⟩

/-- Reports in a row act like the largest of them. -/
theorem trims {log : CommitLog G} {history : List Bytes} (represents : Represents log history)
    (reports : List UInt64) :
    Represents (reports.foldl CommitLog.trim log) history ∧
      (reports.foldl CommitLog.trim log).inner = log.inner ∧
      (reports.foldl CommitLog.trim log).currentEpoch = log.currentEpoch ∧
      (reports.foldl CommitLog.trim log).checkpoint =
        max log.checkpoint (min (reports.foldl max 0) log.currentEpoch) := by
  induction reports using List.reverseRecOn with
  | nil =>
      refine ⟨represents, rfl, rfl, ?_⟩
      apply UInt64.toNat_inj.mp
      rw [List.foldl_nil, List.foldl_nil, UInt64.toNat_max, UInt64.toNat_min]
      change _ = max log.checkpoint.toNat (min 0 log.currentEpoch.toNat)
      omega
  | append_singleton front last ih =>
      obtain ⟨kept, inner, current, checkpoint⟩ := ih
      rw [List.foldl_concat, List.foldl_concat]
      obtain ⟨trimmed, same, _⟩ := kept.trim last
      refine ⟨trimmed, same.trans inner, current, ?_⟩
      change max (front.foldl CommitLog.trim log).checkpoint
        (min last (front.foldl CommitLog.trim log).currentEpoch) = _
      rw [checkpoint, current, min_max_distrib_right, max_assoc]

/-- A log is its inner group, its two counters and what it represents. -/
theorem represents_unique {one two : CommitLog G} {history : List Bytes} (left : Represents one history)
    (right : Represents two history) (inner : one.inner = two.inner)
    (current : one.currentEpoch = two.currentEpoch) (checkpoint : one.checkpoint = two.checkpoint) :
    one = two := by
  have entries : one.commitLog = two.commitLog := by
    apply OrderedMap.ext
    rw [left.entries, right.entries, checkpoint]
  cases one
  cases two
  cases inner
  cases current
  cases checkpoint
  cases entries
  rfl

/-! ### Every run -/

/-- After any commits, failed commits and reports: the log holds exactly the epochs
after its checkpoint, a failed commit touches only the inner group, and reports
between two commits can come in any order and any number of times. -/
theorem commit_log_invariant [numbering : EpochNumbered G] (inner : G) (calls : List LogCall) :
    let ledger := (Ledger.start inner).calls calls
    let log := ledger.log
    log.checkpoint ≤ log.currentEpoch ∧
    log.currentEpoch.toNat = ledger.returned.length ∧
    log.windowBytes = numbered log.checkpoint.toNat (ledger.returned.drop log.checkpoint.toNat) ∧
    (∀ later, log.checkpoint ≤ (ledger.calls later).log.checkpoint) ∧
    (∀ e after, log.createCommit = (.error e, after) → after = { log with inner := after.inner }) ∧
    ∀ one two : List UInt64, (∀ report, report ∈ one ↔ report ∈ two) →
      one.foldl CommitLog.trim log = two.foldl CommitLog.trim log ∧
      (one.foldl CommitLog.trim log).checkpoint =
        max log.checkpoint (min (one.foldl max 0) log.currentEpoch) := by
  intro ledger log
  obtain ⟨epoch, counts⟩ := numbering.counts
  obtain ⟨sound, _⟩ := (start_sound epoch inner).calls counts calls
  have represents : Represents log ledger.returned := sound.represents
  refine ⟨?_, represents.current, represents.window_bytes, fun later => (sound.calls counts later).2,
    fun e after failed => (createCommit_failed failed).2, fun one two same => ?_⟩
  · rw [UInt64.le_iff_toNat_le, represents.current]
    exact represents.checkpoint_le
  · obtain ⟨left, leftInner, leftCurrent, leftCheckpoint⟩ := trims represents one
    obtain ⟨right, rightInner, rightCurrent, rightCheckpoint⟩ := trims represents two
    refine ⟨represents_unique left right (leftInner.trans rightInner.symm)
      (leftCurrent.trans rightCurrent.symm) ?_, leftCheckpoint⟩
    rw [leftCheckpoint, rightCheckpoint, foldl_max_congr same]

end Runs

instance : EpochNumbered CounterGroup where
  counts := by
    refine ⟨CounterGroup.epoch, ?_⟩
    intro group next result created
    simp only [ExportSecret.createCommit, createCommit, MlsGroup.commit, MlsGroup.applyPendingCommit,
      MlsGroup.toBytes, true_and] at created
    by_cases more : group.epoch < CounterGroup.last
    · have advanced := CounterGroup.advance_epoch more
      simp only [more, if_true, Prod.mk.injEq] at created
      obtain ⟨rfl, rfl⟩ := created
      change _ ≤ group.advance.epoch.toNat ∧ (_ → _ < group.advance.epoch.toNat)
      exact ⟨by omega, fun _ => by omega⟩
    · simp only [more, if_false, Prod.mk.injEq] at created
      obtain ⟨rfl, rfl⟩ := created
      exact ⟨le_refl _, fun absurd => by cases absurd⟩

/-- A report from the future is cut to the one commit there is. -/
theorem commit_log_invariant_clamped :
    ((Ledger.start CounterGroup.fresh).calls [.createCommit, .trim 7, .createCommit]).log.windowBytes =
      [(2, CounterGroup.commitOf 1)] := by
  obtain ⟨_, _, window, _⟩ :=
    commit_log_invariant CounterGroup.fresh [.createCommit, .trim 7, .createCommit]
  rw [window]
  decide

end QuicMls.CommitLogRuns
