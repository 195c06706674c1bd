import QuicMls.CommitHistory
import QuicMls.LogShipping

/-! A recording group forwards every call and remembers it. Code that is generic
in its group cannot tell the difference, so what it records is what the code did
to the group it wraps. -/
namespace QuicMls.Recording
open BigEndian Groups

structure Recorded (G : Type) where
  group : G
  created : List Bytes
  calls : List (Bytes × Bool)

def record {G : Type} (group : G) : Recorded G := { group, created := [], calls := [] }

variable {G MlsError : Type} [ExportSecret G MlsError]

instance : ExportSecret (Recorded G) MlsError where
  exportSecret recorded := ExportSecret.exportSecret recorded.group
  applyCommit recorded commit :=
    let answer := ExportSecret.applyCommit recorded.group commit
    (answer.1, { recorded with
      group := answer.2, calls := recorded.calls ++ [(commit, answer.1.toBool)] })
  createCommit recorded :=
    match ExportSecret.createCommit recorded.group with
    | (.error e, group) => (.error e, { recorded with group })
    | (.ok commit, group) => (.ok commit, { recorded with group, created := recorded.created ++ [commit] })

section Answer
variable {recorded next : Recorded G} {group : G} {commit : Bytes} {result : Except MlsError Unit}

theorem applyCommit_recorded (answer : ExportSecret.applyCommit recorded.group commit = (result, group)) :
    ExportSecret.applyCommit recorded commit =
      (result, { recorded with group, calls := recorded.calls ++ [(commit, result.toBool)] }) := by
  simp only [ExportSecret.applyCommit, answer]

/-- The answer of the recorded group, and the call on the record. -/
theorem applyCommit_inner (answer : ExportSecret.applyCommit recorded commit = (result, next)) :
    ExportSecret.applyCommit recorded.group commit = (result, next.group) ∧
      next.calls = recorded.calls ++ [(commit, result.toBool)] := by
  rcases inner : ExportSecret.applyCommit recorded.group commit with ⟨given, group⟩
  rw [applyCommit_recorded inner] at answer
  obtain ⟨rfl, rfl⟩ := Prod.mk.inj answer
  exact ⟨rfl, rfl⟩

end Answer

/-- The commits a group accepted, oldest first. -/
def accepted (calls : List (Bytes × Bool)) : List Bytes :=
  (calls.filter (fun call => call.2)).map (fun call => call.1)

/-- Every call asked for the commit that directly follows those accepted before. -/
inductive InOrder (history : List Bytes) : List (Bytes × Bool) → Prop
  | none : InOrder history []
  | call {calls : List (Bytes × Bool)} {commit : Bytes} (answer : Bool)
      (before : InOrder history calls)
      (follows : history[(accepted calls).length]? = some commit) :
      InOrder history (calls ++ [(commit, answer)])

theorem InOrder.grows {history : List Bytes} {calls : List (Bytes × Bool)}
    (ordered : InOrder history calls) (fresh : Bytes) : InOrder (history ++ [fresh]) calls := by
  induction ordered with
  | none => exact .none
  | call answer _ follows ih =>
      exact .call answer ih (LogShipping.quoted_after_append follows fresh)

@[simp] theorem accepted_ok (calls : List (Bytes × Bool)) (commit : Bytes) :
    accepted (calls ++ [(commit, true)]) = accepted calls ++ [commit] := by
  simp [accepted]

@[simp] theorem accepted_failed (calls : List (Bytes × Bool)) (commit : Bytes) :
    accepted (calls ++ [(commit, false)]) = accepted calls := by
  simp [accepted]

/-- A receiver at `localEpoch` mirrors the follower of a shipped log. -/
structure Tracks (state : LogShipping.State Bytes) (group : Recorded G) (localEpoch : UInt64) :
    Prop where
  applied : state.applied = accepted group.calls
  position : state.applied.length = localEpoch.toNat
  ordered : InOrder state.history group.calls

/-- Every entry carries an offered commit under the label after its index. -/
def Quotes (offered : Nat → Bytes → Prop) (window : Window) : Prop :=
  ∀ entry ∈ window, 0 < entry.1.toNat ∧ offered (entry.1.toNat - 1) entry.2

/-- Whatever a window of offered commits does to a receiver, a sequence of
`apply` moves does to the follower: stale entries and gaps move nothing, and a
rejected commit leaves the follower where it was. -/
theorem window_moves (window : Window) (group : Recorded G) (localEpoch : UInt64)
    (state : LogShipping.State Bytes) (tracks : Tracks state group localEpoch)
    (genuine : ∀ index commit, state.offered index commit → state.history[index]? = some commit)
    (quotes : Quotes state.offered window) :
    ∃ next, Relation.ReflTransGen LogShipping.Move state next ∧
      Tracks next (applyCommitWindow group window localEpoch).2.1
        (applyCommitWindow group window localEpoch).2.2 ∧
      next = { state with applied := next.applied } := by
  -- Each entry the group accepts is one move of the follower.
  induction window generalizing group localEpoch state with
  | nil => exact ⟨state, .refl, tracks, rfl⟩
  | cons entry rest ih =>
      obtain ⟨epoch, commitBytes⟩ := entry
      have later : Quotes state.offered rest := fun entry member =>
        quotes entry (List.mem_cons_of_mem _ member)
      by_cases stale : epoch ≤ localEpoch
      · rw [applyCommitWindow_stale rest stale]
        exact ih group localEpoch state tracks genuine later
      · by_cases successor : epoch = localEpoch + 1
        · have label : epoch.toNat = localEpoch.toNat + 1 := by
            rw [successor, toNat_succ_of_lt stale]
          have arrived : state.offered state.applied.length commitBytes := by
            have offered := (quotes (epoch, commitBytes) List.mem_cons_self).2
            have index : epoch.toNat - 1 = state.applied.length := by
              rw [label, tracks.position, Nat.add_sub_cancel]
            exact index ▸ offered
          have follows : state.history[(accepted group.calls).length]? = some commitBytes := by
            rw [← tracks.applied]
            exact genuine _ commitBytes arrived
          rcases answer : ExportSecret.applyCommit group.group commitBytes with ⟨result, inner⟩
          have recorded := applyCommit_recorded answer
          cases result with
          | error e =>
              rw [applyCommitWindow_rejected rest stale successor recorded]
              exact ⟨state, .refl, ⟨by simpa [Except.toBool] using tracks.applied, tracks.position,
                .call false tracks.ordered follows⟩, rfl⟩
          | ok done =>
              rw [applyCommitWindow_accepted rest stale successor recorded]
              have moved : LogShipping.Move state
                  { state with applied := state.applied ++ [commitBytes] } :=
                .apply state commitBytes arrived
              obtain ⟨next, path, kept, frame⟩ :=
                ih { group with group := inner, calls := group.calls ++ [(commitBytes, true)] }
                  (localEpoch + 1) { state with applied := state.applied ++ [commitBytes] }
                  ⟨by simp [tracks.applied],
                    by simp [tracks.position, toNat_succ_of_lt stale],
                    .call true tracks.ordered follows⟩ genuine later
              exact ⟨next, .head moved path, kept, frame⟩
        · rw [applyCommitWindow_gap rest stale successor]
          exact ⟨state, .refl, tracks, rfl⟩

/-- Forgetting the record commutes with applying a window. -/
theorem erase_window (window : Window) (group : Recorded G) (localEpoch : UInt64) :
    applyCommitWindow group.group window localEpoch =
      ((applyCommitWindow group window localEpoch).1,
        (applyCommitWindow group window localEpoch).2.1.group,
        (applyCommitWindow group window localEpoch).2.2) := by
  induction window generalizing group localEpoch with
  | nil => rfl
  | cons entry rest ih =>
      rcases entry_cases group.group localEpoch entry with
        stale | ⟨larger, gap⟩ | ⟨larger, successor, e, after, answer⟩ | ⟨larger, successor, after, answer⟩
      · rw [applyCommitWindow_stale rest stale, applyCommitWindow_stale rest stale]
        exact ih group localEpoch
      · rw [applyCommitWindow_gap rest larger gap, applyCommitWindow_gap rest larger gap]
      · rw [applyCommitWindow_rejected rest larger successor answer,
          applyCommitWindow_rejected rest larger successor (applyCommit_recorded answer)]
      · rw [applyCommitWindow_accepted rest larger successor answer,
          applyCommitWindow_accepted rest larger successor (applyCommit_recorded answer)]
        exact ih { group with group := after, calls := group.calls ++ [(entry.2, true)] } (localEpoch + 1)

/-- Forgetting the record commutes with committing through a log. -/
theorem erase_create_commit (log : CommitLog (Recorded G)) :
    CommitLog.createCommit { log with inner := log.inner.group } =
      (log.createCommit.1, { log.createCommit.2 with inner := log.createCommit.2.inner.group }) := by
  simp only [CommitLog.createCommit]
  cases made : ExportSecret.createCommit log.inner.group with
  | mk result inner => cases result <;> simp [ExportSecret.createCommit, made]

/-- A commit that succeeds is recorded. -/
theorem created_recorded {recorded after : Recorded G} {commit : Bytes}
    (made : ExportSecret.createCommit recorded = (.ok commit, after)) :
    after.created = recorded.created ++ [commit] ∧
      ExportSecret.createCommit recorded.group = (.ok commit, after.group) := by
  cases inner : ExportSecret.createCommit recorded.group with
  | mk result group =>
      cases result with
      | error e => simp [ExportSecret.createCommit, inner] at made
      | ok bytes =>
          simp only [ExportSecret.createCommit, inner, Prod.mk.injEq, Except.ok.injEq] at made
          obtain ⟨rfl, rfl⟩ := made
          exact ⟨rfl, rfl⟩

end QuicMls.Recording
