import QuicMls.Groups

/-! The history a `CommitLog` stands for. The log holds the commits after its
checkpoint under consecutive labels, so its window is a suffix of everything its
group ever committed. A recording group makes that history, and every call the
receiver makes, observable without touching the code above it. -/
namespace QuicMls.CommitHistory
open BigEndian Groups

/-- Commits labelled consecutively, starting after a given epoch. -/
def numbered : Nat → List Bytes → Window
  | _, [] => []
  | epoch, commit :: rest => (UInt64.ofNat (epoch + 1), commit) :: numbered (epoch + 1) rest

@[simp] theorem length_numbered (epoch : Nat) (commits : List Bytes) :
    (numbered epoch commits).length = commits.length := by
  induction commits generalizing epoch with
  | nil => rfl
  | cons commit rest ih => simp [numbered, ih]

theorem numbered_append (epoch : Nat) (front back : List Bytes) :
    numbered epoch (front ++ back) = numbered epoch front ++ numbered (epoch + front.length) back := by
  induction front generalizing epoch with
  | nil => simp [numbered]
  | cons commit rest ih =>
      have shift : epoch + 1 + rest.length = epoch + (rest.length + 1) := by omega
      simp only [List.cons_append, numbered, ih, List.length_cons, shift]

/-- A run of labelled commits splits where its labels do. -/
theorem numbered_split {epoch : Nat} {commits : List Bytes} {front back : Window}
    (split : front ++ back = numbered epoch commits) :
    front = numbered epoch (commits.take front.length) ∧
      back = numbered (epoch + front.length) (commits.drop front.length) := by
  have inside : front.length ≤ commits.length := by
    have total := congrArg List.length split
    rw [List.length_append, length_numbered] at total
    omega
  have size : (commits.take front.length).length = front.length := List.length_take_of_le inside
  have again := numbered_append epoch (commits.take front.length) (commits.drop front.length)
  rw [List.take_append_drop, size, ← split] at again
  exact List.append_inj again (by rw [length_numbered, size])

theorem numbered_getElem? (epoch : Nat) (commits : List Bytes) (index : Nat) :
    (numbered epoch commits)[index]? =
      commits[index]?.map fun commit => (UInt64.ofNat (epoch + index + 1), commit) := by
  induction commits generalizing epoch index with
  | nil => simp [numbered]
  | cons commit rest ih =>
      cases index with
      | zero => simp [numbered]
      | succ index =>
          have shift : epoch + 1 + index + 1 = epoch + (index + 1) + 1 := by omega
          simp only [numbered, List.getElem?_cons_succ, ih, shift]

theorem toNat_label {epoch : Nat} (fits : epoch < 2 ^ 64) : (UInt64.ofNat epoch).toNat = epoch := by
  rw [UInt64.toNat_ofNat', Nat.mod_eq_of_lt fits]

/-- Every label of a run of commits that stays below `2^64` is its position. -/
theorem mem_numbered {epoch : Nat} {commits : List Bytes} (fits : epoch + commits.length < 2 ^ 64)
    {entry : UInt64 × Bytes} :
    entry ∈ numbered epoch commits ↔
      epoch < entry.1.toNat ∧ commits[entry.1.toNat - (epoch + 1)]? = some entry.2 := by
  rw [List.mem_iff_getElem?]
  constructor
  · rintro ⟨index, found⟩
    rw [numbered_getElem?, Option.map_eq_some_iff] at found
    obtain ⟨commit, at_index, rfl⟩ := found
    have inside := (List.getElem?_eq_some_iff.mp at_index).1
    have label : (UInt64.ofNat (epoch + index + 1)).toNat = epoch + index + 1 :=
      toNat_label (by omega)
    have back : epoch + index + 1 - (epoch + 1) = index := by omega
    exact ⟨by dsimp only; omega, by dsimp only; rw [label, back, at_index]⟩
  · rintro ⟨above, found⟩
    refine ⟨entry.1.toNat - (epoch + 1), ?_⟩
    have back : epoch + (entry.1.toNat - (epoch + 1)) + 1 = entry.1.toNat := by omega
    rw [numbered_getElem?, found, Option.map_some, back, UInt64.ofNat_toNat]

theorem numbered_above {epoch : Nat} {commits : List Bytes}
    (fits : epoch + commits.length < 2 ^ 64) (limit : UInt64) :
    (numbered epoch commits).filter (fun entry => limit < entry.1) =
      numbered (max epoch limit.toNat) (commits.drop (limit.toNat - epoch)) := by
  induction commits generalizing epoch with
  | nil => simp [numbered]
  | cons commit rest ih =>
      have restFits : epoch + 1 + rest.length < 2 ^ 64 := by
        simp only [List.length_cons] at fits
        omega
      have label : (UInt64.ofNat (epoch + 1)).toNat = epoch + 1 :=
        toNat_label (by omega)
      rw [numbered, List.filter_cons, ih restFits]
      -- A label at or below the limit drops its commit, so the start moves with it.
      by_cases above : limit.toNat ≤ epoch
      · have keep : limit < UInt64.ofNat (epoch + 1) := by
          rw [UInt64.lt_iff_toNat_lt, label]
          omega
        have here : limit.toNat - epoch = 0 := by omega
        have later : limit.toNat - (epoch + 1) = 0 := by omega
        have base : max epoch limit.toNat = epoch := by omega
        have next : max (epoch + 1) limit.toNat = epoch + 1 := by omega
        rw [if_pos (decide_eq_true keep), here, later, base, next, List.drop_zero, List.drop_zero,
          numbered]
      · have skip : ¬ limit < UInt64.ofNat (epoch + 1) := by
          rw [UInt64.lt_iff_toNat_lt, label]
          omega
        have here : limit.toNat - epoch = limit.toNat - (epoch + 1) + 1 := by omega
        have base : max (epoch + 1) limit.toNat = max epoch limit.toNat := by omega
        rw [if_neg (by simpa using skip), here, base, List.drop_succ_cons]

/-- A log represents the commits its group made so far: it still holds those
after its checkpoint, in order, each under its own epoch. -/
structure Represents {G : Type} (log : CommitLog G) (history : List Bytes) : Prop where
  current : log.currentEpoch.toNat = history.length
  checkpoint_le : log.checkpoint.toNat ≤ history.length
  entries : log.commitLog.entries =
    numbered log.checkpoint.toNat (history.drop log.checkpoint.toNat)

namespace Represents
variable {G : Type} {log : CommitLog G} {history : List Bytes}

theorem fits (rep : Represents log history) : history.length < 2 ^ 64 := by
  have bound := log.currentEpoch.toNat_lt
  rw [← rep.current]
  exact bound

theorem suffix_fits (rep : Represents log history) :
    log.checkpoint.toNat + (history.drop log.checkpoint.toNat).length < 2 ^ 64 := by
  have bound := rep.fits
  have below := rep.checkpoint_le
  rw [List.length_drop]
  omega

theorem new (inner : G) : Represents (CommitLog.new inner) [] where
  current := rfl
  checkpoint_le := Nat.le_refl 0
  entries := rfl

theorem window_bytes (rep : Represents log history) :
    log.windowBytes = numbered log.checkpoint.toNat (history.drop log.checkpoint.toNat) := by
  rw [CommitLog.windowBytes, rep.entries, numbered_above rep.suffix_fits]
  simp

/-- A commit held after the checkpoint is in the log and in the window. -/
theorem mem_window (rep : Represents log history) {epoch : UInt64} {commit : Bytes}
    (above : log.checkpoint.toNat < epoch.toNat)
    (held : (history.drop log.checkpoint.toNat)[epoch.toNat - 1 - log.checkpoint.toNat]? = some commit) :
    (epoch, commit) ∈ log.commitLog.entries ∧ (epoch, commit) ∈ log.windowBytes := by
  have shift : epoch.toNat - 1 - log.checkpoint.toNat = epoch.toNat - (log.checkpoint.toNat + 1) := by
    omega
  have member := (mem_numbered rep.suffix_fits).mpr
    (show log.checkpoint.toNat < (epoch, commit).1.toNat ∧ _ from ⟨above, shift ▸ held⟩)
  exact ⟨rep.entries ▸ member, rep.window_bytes ▸ member⟩

theorem trim (rep : Represents log history) (reportedK : UInt64) :
    Represents (log.trim reportedK) history ∧ (log.trim reportedK).inner = log.inner ∧
      (log.trim reportedK).checkpoint.toNat =
        max log.checkpoint.toNat (min reportedK.toNat history.length) := by
  have checkpoint : (log.trim reportedK).checkpoint.toNat =
      max log.checkpoint.toNat (min reportedK.toNat history.length) := by
    rw [CommitLog.trim, UInt64.toNat_max, UInt64.toNat_min, rep.current]
  have below := rep.checkpoint_le
  refine ⟨⟨rep.current, by omega, ?_⟩, rfl, checkpoint⟩
  have kept : (log.trim reportedK).commitLog.entries =
      log.commitLog.entries.filter (fun entry => (log.trim reportedK).checkpoint < entry.1) := rfl
  rw [kept, rep.entries, numbered_above rep.suffix_fits, List.drop_drop, checkpoint]
  have base : max log.checkpoint.toNat (max log.checkpoint.toNat (min reportedK.toNat history.length)) =
      max log.checkpoint.toNat (min reportedK.toNat history.length) := by omega
  have shift : log.checkpoint.toNat +
      (max log.checkpoint.toNat (min reportedK.toNat history.length) - log.checkpoint.toNat) =
        max log.checkpoint.toNat (min reportedK.toNat history.length) := by omega
  rw [base, shift]

theorem create_commit {MlsError : Type} [ExportSecret G MlsError] (rep : Represents log history)
    {bytes : Bytes} {after : CommitLog G} (created : log.createCommit = (.ok bytes, after))
    (room : history.length + 1 < 2 ^ 64) :
    Represents after (history ++ [bytes]) ∧ after.checkpoint = log.checkpoint := by
  rw [(CommitLog.createCommit_ok created).2]
  have below := rep.checkpoint_le
  have current : (log.currentEpoch + 1).toNat = history.length + 1 := by
    rw [UInt64.toNat_add, rep.current]
    exact Nat.mod_eq_of_lt room
  -- The fresh label is larger than every held one, so inserting appends.
  have last : ∀ entry ∈ log.commitLog.entries, entry.1 < log.currentEpoch + 1 := by
    intro entry member
    rw [rep.entries, mem_numbered rep.suffix_fits] at member
    obtain ⟨above, found⟩ := member
    have inside := (List.getElem?_eq_some_iff.mp found).1
    rw [List.length_drop] at inside
    rw [UInt64.lt_iff_toNat_lt, current]
    omega
  have label : log.checkpoint.toNat + (history.drop log.checkpoint.toNat).length + 1 =
      history.length + 1 := by
    rw [List.length_drop]
    omega
  refine ⟨⟨by simpa using current, by simp only [List.length_append]; omega, ?_⟩, rfl⟩
  have reread : UInt64.ofNat (history.length + 1) = log.currentEpoch + 1 := by
    rw [← current, UInt64.ofNat_toNat]
  change (log.commitLog.insert (log.currentEpoch + 1) bytes).entries = _
  rw [OrderedMap.entries_insert_last _ _ last, List.drop_append_of_le_length below,
    numbered_append, rep.entries, numbered, label, reread, numbered]

end Represents

end QuicMls.CommitHistory
