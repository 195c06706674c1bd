import QuicMls.CommitLogRuns

/-! `create_commit` when one of its three steps fails. A commit that cannot be applied
is dropped, and the group is as before; one that is applied and cannot be serialised
leaves the group an epoch ahead of everything that can be sent. -/
namespace QuicMls.CommitAtomicity
open BigEndian Groups CommitHistory CommitLogRuns

/-- The pending-commit slot of a group. -/
class PendingSlot (G : Type) (Pending : outParam Type) where
  pending : G → Option Pending

/-- `commit` fills the slot when it is free, and changes nothing when it fails.
`apply_pending_commit` takes the commit out of the slot before anything can go wrong;
it enters the next epoch, or fails and stays in this one. -/
class LawfulPending (G : Type) {Pending Message MlsError : Type} [MlsGroup G Message MlsError]
    [PendingSlot G Pending] : Prop where
  commit_stores : ∀ (group next : G) (data : Bytes) (message : Message),
    MlsGroup.commit group data = (.ok message, next) →
      PendingSlot.pending group = none ∧ PendingSlot.pending next ≠ none ∧
        MlsGroup.currentEpoch next = MlsGroup.currentEpoch group
  commit_fails : ∀ (group next : G) (data : Bytes) (e : MlsError),
    MlsGroup.commit group data = (.error e, next) → next = group
  apply_consumes : ∀ group next : G, MlsGroup.applyPendingCommit group = (.ok (), next) →
    PendingSlot.pending next = none ∧
      (MlsGroup.currentEpoch next).toNat = (MlsGroup.currentEpoch group).toNat + 1
  apply_fails : ∀ (group next : G) (e : MlsError),
    MlsGroup.applyPendingCommit group = (.error e, next) →
      PendingSlot.pending next = none ∧ MlsGroup.currentEpoch next = MlsGroup.currentEpoch group

section Atomicity
variable {G Message MlsError : Type} [MlsGroup G Message MlsError] {Pending : Type}
  [PendingSlot G Pending]

/-- The group commits and applies the commit, and then fails to serialise it. -/
def Stranded (group : G) : Prop :=
  ∃ message staged next, MlsGroup.commit group [] = (.ok message, staged) ∧
    MlsGroup.applyPendingCommit staged = (.ok (), next) ∧ ∃ e, MlsGroup.toBytes G message = .error e

/-- The four ways `create_commit` can go. -/
inductive Outcome (group : G) : Except MlsError Bytes × G → Prop
  | refused {e : MlsError} (whole : ¬ Stranded group) : Outcome group (.error e, group)
  | undone {e : MlsError} {next : G} (whole : ¬ Stranded group)
      (free : PendingSlot.pending group = none) (empty : PendingSlot.pending next = none)
      (epoch : MlsGroup.currentEpoch next = MlsGroup.currentEpoch group) :
      Outcome group (.error e, next)
  | ahead {e : MlsError} {next : G} (stranded : Stranded group)
      (empty : PendingSlot.pending next = none)
      (epoch : (MlsGroup.currentEpoch next).toNat = (MlsGroup.currentEpoch group).toNat + 1) :
      Outcome group (.error e, next)
  | made {bytes : Bytes} {next : G} (whole : ¬ Stranded group)
      (empty : PendingSlot.pending next = none)
      (epoch : (MlsGroup.currentEpoch next).toNat = (MlsGroup.currentEpoch group).toNat + 1) :
      Outcome group (.ok bytes, next)

variable [lawful : LawfulPending G]

theorem createCommit_outcome (group : G) : Outcome group (createCommit group) := by
  rw [createCommit]
  rcases committed : MlsGroup.commit group [] with ⟨result, staged⟩
  cases result with
  | error e =>
      obtain rfl := lawful.commit_fails group staged [] e committed
      apply Outcome.refused
      rintro ⟨message, again, next, absurd, -⟩
      cases committed.symm.trans absurd
  | ok message =>
      obtain ⟨free, -, same⟩ := lawful.commit_stores group staged [] message committed
      rcases applied : MlsGroup.applyPendingCommit staged with ⟨done, next⟩
      simp only [applied]
      cases done with
      | error e =>
          obtain ⟨empty, kept⟩ := lawful.apply_fails staged next e applied
          refine .undone ?_ free empty (kept.trans same)
          rintro ⟨again, other, after, once, absurd, -⟩
          obtain ⟨-, rfl⟩ := Prod.mk.inj (committed.symm.trans once)
          cases applied.symm.trans absurd
      | ok done =>
          obtain ⟨empty, advanced⟩ := lawful.apply_consumes staged next applied
          rw [same] at advanced
          cases written : MlsGroup.toBytes G message with
          | error e => exact .ahead ⟨message, staged, next, committed, applied, e, written⟩ empty advanced
          | ok bytes =>
              refine .made ?_ empty advanced
              rintro ⟨again, other, after, once, -, e, failed⟩
              obtain ⟨twice, -⟩ := Prod.mk.inj (committed.symm.trans once)
              obtain rfl := Except.ok.inj twice
              cases written.symm.trans failed

include Pending in
/-- The epoch of a group with a pending slot counts its commits. -/
theorem epoch_counts : Counts (MlsGroup.currentEpoch : G → UInt64) := by
  intro group next result created
  have outcome := createCommit_outcome group
  change createCommit group = (result, next) at created
  rw [created] at outcome
  cases outcome with
  | refused => exact ⟨le_refl _, fun absurd => by cases absurd⟩
  | undone _ _ _ epoch => exact ⟨by rw [epoch], fun absurd => by cases absurd⟩
  | ahead _ _ epoch => exact ⟨by omega, fun absurd => by cases absurd⟩
  | made _ _ epoch => exact ⟨by omega, fun _ => by omega⟩

include Pending in
theorem epochNumbered : EpochNumbered G := ⟨_, epoch_counts⟩

/-! ### One call -/

/-- A call that fails leaves the group's epoch and slot and the log as they were. -/
def Atomic (log : CommitLog G) : Prop :=
  ∀ e after, log.createCommit = (.error e, after) →
    MlsGroup.currentEpoch after.inner = MlsGroup.currentEpoch log.inner ∧
      PendingSlot.pending after.inner = PendingSlot.pending log.inner ∧
      after.currentEpoch = log.currentEpoch ∧ after.commitLog = log.commitLog

theorem atomic_iff (log : CommitLog G) : Atomic log ↔ ¬ Stranded log.inner := by
  have outcome := createCommit_outcome log.inner
  constructor
  · intro atomic stranded
    rcases created : createCommit log.inner with ⟨result, next⟩
    have failing : ∀ e, result = .error e → log.createCommit = (.error e, { log with inner := next }) := by
      intro e same
      rw [CommitLog.createCommit]
      simp only [ExportSecret.createCommit, created, same]
    rw [created] at outcome
    cases outcome with
    | refused whole => exact whole stranded
    | undone whole => exact whole stranded
    | ahead _ _ epoch =>
        obtain ⟨same, _⟩ := atomic _ _ (failing _ rfl)
        rw [same] at epoch
        omega
    | made whole => exact whole stranded
  · intro whole e after failed
    obtain ⟨made, frame⟩ := createCommit_failed failed
    change createCommit log.inner = (.error e, after.inner) at made
    rw [made] at outcome
    rw [frame]
    generalize after.inner = next at outcome ⊢
    cases outcome with
    | refused => exact ⟨rfl, rfl, rfl, rfl⟩
    | undone _ free empty epoch => exact ⟨epoch, empty.trans free.symm, rfl, rfl⟩
    | ahead stranded => exact absurd stranded whole

/-! ### Whole runs -/

/-- No commit is pending, and the group is as many epochs on as commits were
returned, each of which the log represents. -/
structure InStep (origin : Nat) (ledger : Ledger G) : Prop where
  idle : PendingSlot.pending ledger.log.inner = none
  epoch : (MlsGroup.currentEpoch ledger.log.inner).toNat = origin + ledger.returned.length
  represents : Represents ledger.log ledger.returned

/-- No `create_commit` of the run meets a group that it strands. -/
def Unstranded : Ledger G → List LogCall → Prop
  | _, [] => True
  | ledger, call :: rest =>
      (call = .createCommit → ¬ Stranded ledger.log.inner) ∧ Unstranded (ledger.call call) rest

theorem inStep_createCommit {origin : Nat} {ledger : Ledger G} (inStep : InStep origin ledger) :
    InStep origin (ledger.call .createCommit) ↔ ¬ Stranded ledger.log.inner := by
  obtain ⟨idle, epoch, represents⟩ := inStep
  have outcome := createCommit_outcome ledger.log.inner
  rw [Ledger.call]
  rcases created : ledger.log.createCommit with ⟨result, after⟩
  cases result with
  | error e =>
      obtain ⟨made, frame⟩ := createCommit_failed created
      change createCommit ledger.log.inner = (.error e, after.inner) at made
      rw [made] at outcome
      rw [frame]
      generalize after.inner = next at outcome
      cases outcome with
      | refused whole => exact iff_of_true ⟨idle, epoch, represents⟩ whole
      | undone whole _ empty kept =>
          obtain ⟨current, checkpoint, entries⟩ := represents
          exact iff_of_true
            ⟨empty, (congrArg UInt64.toNat kept).trans epoch, current, checkpoint, entries⟩ whole
      | ahead stranded _ ahead =>
          refine iff_of_false (fun inStep => ?_) (not_not_intro stranded)
          have behind := inStep.epoch
          change (MlsGroup.currentEpoch next).toNat = origin + ledger.returned.length at behind
          omega
  | ok bytes =>
      have made := (CommitLog.createCommit_ok created).1
      change createCommit ledger.log.inner = (.ok bytes, after.inner) at made
      rw [made] at outcome
      cases outcome with
      | made whole free advanced =>
          have word := (MlsGroup.currentEpoch after.inner).toNat_lt
          refine iff_of_true ⟨free, ?_, (represents.create_commit created (by omega)).1⟩ whole
          change (MlsGroup.currentEpoch after.inner).toNat = origin + (ledger.returned ++ [bytes]).length
          rw [advanced, epoch, List.length_append, List.length_singleton]
          omega

omit lawful in
theorem inStep_trim {origin : Nat} {ledger : Ledger G} (inStep : InStep origin ledger) (reportedK : UInt64) :
    InStep origin (ledger.call (.trim reportedK)) :=
  ⟨inStep.idle, inStep.epoch, (inStep.represents.trim reportedK).1⟩

/-- A run stays in step exactly as long as no call strands the group. -/
theorem run_inStep_iff {origin : Nat} {ledger : Ledger G} (inStep : InStep origin ledger)
    (calls : List LogCall) :
    (∀ front, front <+: calls → InStep origin (ledger.calls front)) ↔ Unstranded ledger calls := by
  induction calls generalizing ledger with
  | nil =>
      refine iff_of_true ?_ trivial
      intro front before
      rw [List.prefix_nil.mp before]
      exact inStep
  | cons call rest ih =>
      constructor
      · intro always
        have next := always [call] ((List.prefix_cons_inj call).mpr List.nil_prefix)
        refine ⟨?_, (ih next).mp fun front before => always _ ((List.prefix_cons_inj call).mpr before)⟩
        rintro rfl
        exact (inStep_createCommit inStep).mp next
      · rintro ⟨whole, later⟩ front before
        have next : InStep origin (ledger.call call) := by
          cases call with
          | createCommit => exact (inStep_createCommit inStep).mpr (whole rfl)
          | trim reportedK => exact inStep_trim inStep reportedK
        cases front with
        | nil => exact inStep
        | cons first front =>
            obtain ⟨same, inside⟩ := List.cons_prefix_cons.mp before
            subst same
            exact (ih next).mpr later front inside

/-- `create_commit` is atomic exactly when it does not strand its group, and a run
keeps group and log together exactly when none of its calls does. -/
theorem create_commit_atomic_iff :
    (∀ log : CommitLog G, Atomic log ↔ ¬ Stranded log.inner) ∧
    ∀ (inner : G) (calls : List LogCall), PendingSlot.pending inner = none →
      ((∀ front, front <+: calls →
          InStep (MlsGroup.currentEpoch inner).toNat ((Ledger.start inner).calls front)) ↔
        Unstranded (Ledger.start inner) calls) := by
  refine ⟨atomic_iff, fun inner calls idle => ?_⟩
  apply run_inStep_iff
  exact ⟨idle, rfl, .new inner⟩

end Atomicity

/-! ### A group whose commits can fail -/

/-- Counts epochs with a real pending slot. It cannot apply the commit of one epoch, and
makes one in another that cannot be serialised. -/
structure SlottedGroup where
  counter : CounterGroup
  jammed : UInt64
  garbled : UInt64
  deriving DecidableEq

namespace SlottedGroup
open CounterGroup

/-- The commit of an epoch, or one that has no bytes. -/
def commit (group : SlottedGroup) : Except Refused (Option Bytes) × SlottedGroup :=
  if group.counter.pending then (.error .refused, group)
  else
    (.ok (if group.counter.epoch = group.garbled then none else some (commitOf group.counter.epoch)),
      { group with counter := { group.counter with pending := true } })

/-- The pending commit is taken first. -/
def applyPendingCommit (group : SlottedGroup) : Except Refused Unit × SlottedGroup :=
  if group.counter.pending ∧ group.counter.epoch < last ∧ group.counter.epoch ≠ group.jammed then
    (.ok (), { group with counter := group.counter.advance })
  else (.error .refused, { group with counter := { group.counter with pending := false } })

instance : MlsGroup SlottedGroup (Option Bytes) Refused where
  exportSecret group label context len := .ok (group.counter.exported label context len)
  fromBytes bytes := .ok (some bytes)
  toBytes message := message.elim (.error .refused) .ok
  processIncomingMessage group message :=
    let processed := group.counter.process (message.getD [])
    (processed.1, { group with counter := processed.2 })
  commit group _ := group.commit
  applyPendingCommit := applyPendingCommit
  currentEpoch group := group.counter.epoch

instance : PendingSlot SlottedGroup Unit where
  pending group := if group.counter.pending then some () else none

instance : LawfulPending SlottedGroup where
  commit_stores group next data message committed := by
    change group.commit = _ at committed
    rw [SlottedGroup.commit] at committed
    split at committed
    · cases committed
    · rename_i free
      obtain ⟨_, rfl⟩ := Prod.mk.inj committed
      exact ⟨if_neg free, by simp [PendingSlot.pending], rfl⟩
  commit_fails group next data e failed := by
    change group.commit = _ at failed
    rw [SlottedGroup.commit] at failed
    split at failed
    · exact (Prod.mk.inj failed).2.symm
    · cases failed
  apply_consumes group next applied := by
    change group.applyPendingCommit = _ at applied
    rw [SlottedGroup.applyPendingCommit] at applied
    split at applied
    · rename_i ready
      obtain ⟨_, rfl⟩ := Prod.mk.inj applied
      exact ⟨rfl, advance_epoch ready.2.1⟩
    · cases applied
  apply_fails group next e failed := by
    change group.applyPendingCommit = _ at failed
    rw [SlottedGroup.applyPendingCommit] at failed
    split at failed
    · cases failed
    · obtain ⟨_, rfl⟩ := Prod.mk.inj failed
      exact ⟨rfl, rfl⟩

/-- Its first commit cannot be applied. -/
def jam : SlottedGroup := { counter := fresh, jammed := 0, garbled := last }

/-- Its first commit cannot be serialised. -/
def garble : SlottedGroup := { counter := fresh, jammed := last, garbled := 0 }

theorem jam_whole : ¬ Stranded jam := by
  rintro ⟨message, staged, next, committed, applied, -⟩
  have staging : jam.commit =
      (.ok (some (commitOf 0)), { jam with counter := { fresh with pending := true } }) := rfl
  obtain ⟨_, rfl⟩ := Prod.mk.inj (staging.symm.trans committed)
  cases applied

end SlottedGroup

theorem create_commit_atomic_jam :
    (CommitLog.new SlottedGroup.jam).createCommit.1.toBool = false ∧
      Atomic (CommitLog.new SlottedGroup.jam) ∧
      InStep 0 ((Ledger.start SlottedGroup.jam).calls [.createCommit, .trim 1]) := by
  obtain ⟨single, runs⟩ := create_commit_atomic_iff (G := SlottedGroup)
  have whole := SlottedGroup.jam_whole
  exact ⟨rfl, (single _).mpr whole,
    (runs SlottedGroup.jam [.createCommit, .trim 1] rfl).mpr ⟨fun _ => whole, nofun, trivial⟩ _
      (List.prefix_refl _)⟩

/-- A commit that cannot be serialised: the call fails, the group has entered the next
epoch, and the next commit that succeeds is logged as if it were the first. -/
theorem create_commit_ahead :
    ¬ Atomic (CommitLog.new SlottedGroup.garble) ∧
      (CommitLog.new SlottedGroup.garble).createCommit.1.toBool = false ∧
      MlsGroup.currentEpoch (CommitLog.new SlottedGroup.garble).createCommit.2.inner = 1 ∧
      (CommitLog.new SlottedGroup.garble).createCommit.2.currentEpoch = 0 ∧
      (CommitLog.new SlottedGroup.garble).createCommit.2.windowBytes = [] ∧
      (CommitLog.new SlottedGroup.garble).createCommit.2.createCommit.2.windowBytes =
        [(1, CounterGroup.commitOf 1)] := by
  refine ⟨fun atomic => ?_, rfl, rfl, rfl, rfl, rfl⟩
  obtain ⟨epoch, -⟩ := atomic .refused (CommitLog.new SlottedGroup.garble).createCommit.2 rfl
  cases epoch

end QuicMls.CommitAtomicity
