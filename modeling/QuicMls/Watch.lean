import Mathlib

/-! A watch channel: one slot that every send overwrites. A receiver remembers the last
version it has seen. It may miss values that were overwritten, but not that the slot
has changed. -/
namespace QuicMls.Watch

structure Channel (Value : Type*) where
  value : Value
  version : Nat
  closed : Bool
  deriving DecidableEq

namespace Channel
variable {Value : Type*}

def new (value : Value) : Channel Value := { value, version := 0, closed := false }

def sendReplace (channel : Channel Value) (value : Value) : Channel Value :=
  { channel with value, version := channel.version + 1 }

/-- The latest value, and the version the receiver has then seen. -/
def borrowAndUpdate (channel : Channel Value) : Value × Nat := (channel.value, channel.version)

/-- Waits (`none`) for a version not seen yet, or for the last sender to go. -/
def changed (channel : Channel Value) (seen : Nat) : Option (Except Unit Nat) :=
  if channel.version ≠ seen then some (.ok channel.version)
  else if channel.closed then some (.error ())
  else none

/-- A receiver that took `values` when it had seen version `seen`: none of them is later
than the slot, and all are earlier once the slot has changed. -/
structure Behind [Preorder Value] (channel : Channel Value) (seen : Nat) (values : List Value) : Prop where
  seen_le : seen ≤ channel.version
  le : ∀ value ∈ values, value ≤ channel.value
  lt : seen < channel.version → ∀ value ∈ values, value < channel.value

theorem changed_ok {channel : Channel Value} {seen version : Nat}
    (woken : channel.changed seen = some (.ok version)) :
    channel.version ≠ seen ∧ version = channel.version := by
  rw [changed] at woken
  split at woken
  · rename_i different
    cases woken
    exact ⟨different, rfl⟩
  · split at woken <;> cases woken

theorem changed_eq_none {channel : Channel Value} {seen : Nat} :
    channel.changed seen = none ↔ channel.version = seen ∧ channel.closed = false := by
  rw [changed]
  by_cases same : channel.version = seen
  · cases closed : channel.closed <;> simp [same]
  · simp [same]

section Rising
variable [Preorder Value] {channel : Channel Value} {seen : Nat} {values : List Value} {value : Value}

/-- A channel that only rises. -/
theorem Behind.sendReplace (behind : Behind channel seen values) (rises : channel.value < value) :
    Behind (channel.sendReplace value) seen values where
  seen_le := behind.seen_le.trans (Nat.le_succ _)
  le := fun taken member => (behind.le taken member).trans rises.le
  lt := fun _ taken member => (behind.le taken member).trans_lt rises

/-- What was taken before the slot changed is earlier than what is taken after it. -/
theorem Behind.changed {version : Nat} (behind : Behind channel seen values)
    (woken : channel.changed seen = some (.ok version)) :
    version = channel.version ∧ ∀ taken ∈ values, taken < channel.value := by
  obtain ⟨different, same⟩ := changed_ok woken
  exact ⟨same, behind.lt (Nat.lt_of_le_of_ne behind.seen_le different.symm)⟩

theorem behind_borrow (earlier : ∀ taken ∈ values, taken < channel.value) :
    Behind channel channel.borrowAndUpdate.2 (values ++ [channel.borrowAndUpdate.1]) where
  seen_le := le_refl _
  le := by
    intro taken member
    rcases List.mem_append.mp member with old | fresh
    · exact (earlier taken old).le
    · obtain rfl := List.mem_singleton.mp fresh
      exact le_refl _
  lt := fun later => absurd later (lt_irrefl _)

theorem Behind.subset {fewer : List Value} (behind : Behind channel seen values) (part : fewer ⊆ values) :
    Behind channel seen fewer where
  seen_le := behind.seen_le
  le := fun taken member => behind.le taken (part member)
  lt := fun later taken member => behind.lt later taken (part member)

end Rising

end Channel

end QuicMls.Watch
