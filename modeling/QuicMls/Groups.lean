import QuicMls.OrderedMap

/-! The group layer: the `ExportSecret` trait, its implementation for
`mls_rs::Group`, and the checkpointed `CommitLog` a sender keeps on top of it.
A method on `&mut self` returns its result with the new receiver, also when it
fails. `mls_rs::Group` itself is a parameter; the laws below state what its
documentation promises, and the type of an exported secret that it has the length
asked for. The implementations for `Arc<Mutex<G>>` and `Box<dyn ExportSecret>` only
forward and are left implicit. -/
namespace QuicMls.Groups
open BigEndian

instance linearOrderUInt64 : LinearOrder UInt64 where
  le_refl := UInt64.le_refl
  le_trans := fun _ _ _ => UInt64.le_trans
  le_antisymm := fun _ _ => UInt64.le_antisymm
  le_total := UInt64.le_total
  lt_iff_le_not_ge := fun a b => by
    rw [UInt64.lt_iff_toNat_lt, UInt64.le_iff_toNat_le, UInt64.le_iff_toNat_le]
    omega
  toDecidableLE := inferInstance

abbrev Window := List (UInt64 × Bytes)

class ExportSecret (G : Type) (MlsError : outParam Type) where
  exportSecret : G → Bytes → Bytes → (len : Nat) → Except MlsError (Vector UInt8 len)
  applyCommit : G → Bytes → Except MlsError Unit × G
  createCommit : G → Except MlsError Bytes × G
  pendingCommitWindow : G → Window := fun _ => []

/-! ### `mls_rs::Group` -/

/-- The kind of message `process_incoming_message` reports on success. -/
inductive ReceivedMessage where
  | applicationMessage
  | commit
  | proposal
  | groupInfo
  | welcome
  | keyPackage
  deriving DecidableEq

/-- The calls the crate makes into `mls_rs`. -/
class MlsGroup (G : Type) (Message MlsError : outParam Type) where
  exportSecret : G → Bytes → Bytes → (len : Nat) → Except MlsError (Vector UInt8 len)
  fromBytes : Bytes → Except MlsError Message
  toBytes : Message → Except MlsError Bytes
  processIncomingMessage : G → Message → Except MlsError ReceivedMessage × G
  commit : G → Bytes → Except MlsError Message × G
  applyPendingCommit : G → Except MlsError Unit × G
  currentEpoch : G → UInt64

section Mls
variable {G Message MlsError : Type} [MlsGroup G Message MlsError]

def applyCommit (group : G) (commit : Bytes) : Except MlsError Unit × G :=
  match MlsGroup.fromBytes G commit with
  | .error e => (.error e, group)
  | .ok message =>
      match MlsGroup.processIncomingMessage group message with
      | (.error e, group) => (.error e, group)
      | (.ok _, group) => (.ok (), group)

def createCommit (group : G) : Except MlsError Bytes × G :=
  match MlsGroup.commit group [] with
  | (.error e, group) => (.error e, group)
  | (.ok commitMessage, group) =>
      match MlsGroup.applyPendingCommit group with
      | (.error e, group) => (.error e, group)
      | (.ok (), group) => (MlsGroup.toBytes G commitMessage, group)

instance : ExportSecret G MlsError where
  exportSecret := MlsGroup.exportSecret
  applyCommit := applyCommit
  createCommit := createCommit

/-- Committing stages a pending commit; applying it advances the epoch by one. -/
class LawfulCommit (G : Type) {Message MlsError : Type} [MlsGroup G Message MlsError] : Prop where
  commit_keeps : ∀ (group next : G) (data : Bytes) (result : Except MlsError Message),
    MlsGroup.commit group data = (result, next) →
      MlsGroup.currentEpoch next = MlsGroup.currentEpoch group
  apply_pending_advances : ∀ group next : G,
    MlsGroup.applyPendingCommit group = (.ok (), next) →
      (MlsGroup.currentEpoch next).toNat = (MlsGroup.currentEpoch group).toNat + 1

/-- An incoming commit advances the epoch by one, any other accepted message
keeps it, and a rejected message changes nothing. -/
class LawfulProcess (G : Type) {Message MlsError : Type} [MlsGroup G Message MlsError] : Prop where
  commit_advances : ∀ (group next : G) (message : Message),
    MlsGroup.processIncomingMessage group message = (.ok .commit, next) →
      (MlsGroup.currentEpoch next).toNat = (MlsGroup.currentEpoch group).toNat + 1
  other_keeps : ∀ (group next : G) (message : Message) (kind : ReceivedMessage),
    MlsGroup.processIncomingMessage group message = (.ok kind, next) → kind ≠ .commit →
      MlsGroup.currentEpoch next = MlsGroup.currentEpoch group
  reject_unchanged : ∀ (group next : G) (message : Message) (e : MlsError),
    MlsGroup.processIncomingMessage group message = (.error e, next) → next = group

theorem create_commit_advances [LawfulCommit G] {group next : G} {bytes : Bytes}
    (created : createCommit group = (.ok bytes, next)) :
    (MlsGroup.currentEpoch next).toNat = (MlsGroup.currentEpoch group).toNat + 1 := by
  unfold createCommit at created
  split at created
  · cases created
  · rename_i message staged committed
    split at created
    · cases created
    · rename_i applied pending
      have same : applied = next := (Prod.mk.inj created).2
      rw [← same, LawfulCommit.apply_pending_advances staged applied pending,
        LawfulCommit.commit_keeps group staged [] _ committed]

end Mls

/-! ### `CommitLog` -/

structure CommitLog (G : Type) where
  inner : G
  commitLog : OrderedMap UInt64 Bytes
  currentEpoch : UInt64
  checkpoint : UInt64

namespace CommitLog
variable {G MlsError : Type}

def new (inner : G) : CommitLog G :=
  { inner, commitLog := OrderedMap.empty, currentEpoch := 0, checkpoint := 0 }

def windowBytes (log : CommitLog G) : Window :=
  log.commitLog.entries.filter (fun entry => log.checkpoint < entry.1)

def trim (log : CommitLog G) (reportedK : UInt64) : CommitLog G :=
  let k := min reportedK log.currentEpoch
  let checkpoint := max log.checkpoint k
  { log with checkpoint, commitLog := log.commitLog.retain (fun epoch _ => checkpoint < epoch) }

variable [ExportSecret G MlsError]

def createCommit (log : CommitLog G) : Except MlsError Bytes × CommitLog G :=
  match ExportSecret.createCommit log.inner with
  | (.error e, inner) => (.error e, { log with inner })
  | (.ok bytes, inner) =>
      let currentEpoch := log.currentEpoch + 1
      (.ok bytes, { log with
        inner, currentEpoch, commitLog := log.commitLog.insert currentEpoch bytes })

instance : ExportSecret (CommitLog G) MlsError where
  exportSecret log := ExportSecret.exportSecret log.inner
  applyCommit log commit :=
    let applied := ExportSecret.applyCommit log.inner commit
    (applied.1, { log with inner := applied.2 })
  createCommit := createCommit
  pendingCommitWindow := windowBytes

theorem createCommit_ok {log after : CommitLog G} {bytes : Bytes}
    (created : log.createCommit = (.ok bytes, after)) :
    ExportSecret.createCommit log.inner = (.ok bytes, after.inner) ∧
      after = { log with
        inner := after.inner, currentEpoch := log.currentEpoch + 1,
        commitLog := log.commitLog.insert (log.currentEpoch + 1) bytes } := by
  unfold createCommit at created
  split at created
  · cases created
  · rename_i made
    obtain ⟨same, rfl⟩ := Prod.mk.inj created
    obtain rfl := Except.ok.inj same
    exact ⟨made, rfl⟩

end CommitLog

/-! ### Applying a window -/

inductive CommitWindowError (MlsError : Type) where
  | resyncNeeded
  | mlsError (e : MlsError)

/-- The label test runs before the sum: `localEpoch + 1` is only compared with
a larger label, so it cannot wrap. -/
def applyCommitWindow {G MlsError : Type} [ExportSecret G MlsError] (group : G) :
    Window → UInt64 → Except (CommitWindowError MlsError) Unit × G × UInt64
  | [], localEpoch => (.ok (), group, localEpoch)
  -- Stale labels are skipped, a gap stops the window with the entries before it applied.
  | (epoch, commitBytes) :: rest, localEpoch =>
      if epoch ≤ localEpoch then applyCommitWindow group rest localEpoch
      else if epoch = localEpoch + 1 then
        match ExportSecret.applyCommit group commitBytes with
        | (.error e, group) => (.error (.mlsError e), group, localEpoch)
        | (.ok (), group) => applyCommitWindow group rest (localEpoch + 1)
      else (.error .resyncNeeded, group, localEpoch)

theorem toNat_succ_of_lt {localEpoch epoch : UInt64} (larger : ¬ epoch ≤ localEpoch) :
    (localEpoch + 1).toNat = localEpoch.toNat + 1 := by
  rw [UInt64.le_iff_toNat_le] at larger
  have bound := epoch.toNat_lt
  rw [UInt64.toNat_add]
  change (localEpoch.toNat + 1) % 2 ^ 64 = localEpoch.toNat + 1
  omega

section OneEntry
variable {G MlsError : Type} [ExportSecret G MlsError] {group after : G} {localEpoch : UInt64}
  {entry : UInt64 × Bytes} (rest : Window)

theorem applyCommitWindow_stale (stale : entry.1 ≤ localEpoch) :
    applyCommitWindow group (entry :: rest) localEpoch = applyCommitWindow group rest localEpoch := by
  rw [applyCommitWindow, if_pos stale]

theorem applyCommitWindow_gap (larger : ¬ entry.1 ≤ localEpoch) (gap : entry.1 ≠ localEpoch + 1) :
    applyCommitWindow group (entry :: rest) localEpoch = (.error .resyncNeeded, group, localEpoch) := by
  rw [applyCommitWindow, if_neg larger, if_neg gap]

theorem applyCommitWindow_rejected {e : MlsError} (larger : ¬ entry.1 ≤ localEpoch)
    (successor : entry.1 = localEpoch + 1)
    (answer : ExportSecret.applyCommit group entry.2 = (.error e, after)) :
    applyCommitWindow group (entry :: rest) localEpoch = (.error (.mlsError e), after, localEpoch) := by
  rw [applyCommitWindow, if_neg larger, if_pos successor, answer]

theorem applyCommitWindow_accepted (larger : ¬ entry.1 ≤ localEpoch) (successor : entry.1 = localEpoch + 1)
    (answer : ExportSecret.applyCommit group entry.2 = (.ok (), after)) :
    applyCommitWindow group (entry :: rest) localEpoch = applyCommitWindow after rest (localEpoch + 1) := by
  rw [applyCommitWindow, if_neg larger, if_pos successor, answer]

/-- An entry is stale, leaves a gap, is rejected or is accepted. -/
theorem entry_cases (group : G) (localEpoch : UInt64) (entry : UInt64 × Bytes) :
    entry.1 ≤ localEpoch ∨
    (¬ entry.1 ≤ localEpoch ∧ entry.1 ≠ localEpoch + 1) ∨
    (¬ entry.1 ≤ localEpoch ∧ entry.1 = localEpoch + 1 ∧
      ∃ e after, ExportSecret.applyCommit group entry.2 = (.error e, after)) ∨
    (¬ entry.1 ≤ localEpoch ∧ entry.1 = localEpoch + 1 ∧
      ∃ after, ExportSecret.applyCommit group entry.2 = (.ok (), after)) := by
  by_cases stale : entry.1 ≤ localEpoch
  · exact Or.inl stale
  · by_cases successor : entry.1 = localEpoch + 1
    · rcases answer : ExportSecret.applyCommit group entry.2 with ⟨result, after⟩
      cases result with
      | error e => exact Or.inr (Or.inr (Or.inl ⟨stale, successor, e, after, rfl⟩))
      | ok done => exact Or.inr (Or.inr (Or.inr ⟨stale, successor, after, rfl⟩))
    · exact Or.inr (Or.inl ⟨stale, successor⟩)

end OneEntry

/-! ### A group that meets the laws -/

/-- Counts epochs. A commit names the epoch it leaves, and a key package is
accepted without effect. -/
structure CounterGroup where
  epoch : UInt64
  pending : Bool
  deriving DecidableEq

namespace CounterGroup

inductive Refused where
  | refused
  deriving DecidableEq

def fresh : CounterGroup := { epoch := 0, pending := false }

def commitOf (epoch : UInt64) : Bytes := 1 :: wordToBe epoch

def keyPackage : Bytes := [5]

def last : UInt64 := 0xFFFFFFFFFFFFFFFF

def advance (group : CounterGroup) : CounterGroup := { epoch := group.epoch + 1, pending := false }

def process (group : CounterGroup) (message : Bytes) : Except Refused ReceivedMessage × CounterGroup :=
  if message = commitOf group.epoch ∧ group.epoch < last then (.ok .commit, group.advance)
  else if message = keyPackage then (.ok .keyPackage, group)
  else (.error .refused, group)

/-- The epoch and the request, padded or cut to the length asked for. -/
def exported (group : CounterGroup) (label context : Bytes) (len : Nat) : Vector UInt8 len where
  toArray := ((wordToBe group.epoch ++ context ++ label ++ List.replicate len 0).take len).toArray
  size_toArray := by
    simp
    omega

instance : MlsGroup CounterGroup Bytes Refused where
  exportSecret group label context len := .ok (group.exported label context len)
  fromBytes := .ok
  toBytes := .ok
  processIncomingMessage := process
  commit group _ := (.ok (commitOf group.epoch), { group with pending := true })
  applyPendingCommit group :=
    if group.pending ∧ group.epoch < last then (.ok (), group.advance) else (.error .refused, group)
  currentEpoch group := group.epoch

theorem advance_epoch {group : CounterGroup} (more : group.epoch < last) :
    group.advance.epoch.toNat = group.epoch.toNat + 1 := by
  exact toNat_succ_of_lt (UInt64.not_le.mpr more)

instance : LawfulCommit CounterGroup where
  commit_keeps _ next _ _ committed := by
    obtain ⟨_, rfl⟩ := Prod.mk.inj committed
    rfl
  apply_pending_advances group next pending := by
    simp only [MlsGroup.applyPendingCommit] at pending
    split at pending
    · rename_i ready
      obtain ⟨_, rfl⟩ := Prod.mk.inj pending
      exact advance_epoch ready.2
    · cases pending

instance : LawfulProcess CounterGroup where
  commit_advances group next message processed := by
    simp only [MlsGroup.processIncomingMessage, process] at processed
    split at processed
    · rename_i successor
      obtain ⟨_, rfl⟩ := Prod.mk.inj processed
      exact advance_epoch successor.2
    · split at processed <;> simp at processed
  other_keeps group next message kind processed different := by
    simp only [MlsGroup.processIncomingMessage, process] at processed
    split at processed
    · exact absurd (Except.ok.inj (Prod.mk.inj processed).1).symm different
    · split at processed
      · rw [(Prod.mk.inj processed).2]
      · simp at processed
  reject_unchanged group next message e processed := by
    simp only [MlsGroup.processIncomingMessage, process] at processed
    split at processed
    · simp at processed
    · split at processed
      · simp at processed
      · exact (Prod.mk.inj processed).2.symm

end CounterGroup

end QuicMls.Groups
