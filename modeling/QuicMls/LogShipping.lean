import QuicMls.Machine

/-! A leader ships a numbered log to one follower over a lossy network. The
network is what was ever put on it: offers and acknowledgements may be lost,
repeated and reordered freely. The leader discards a prefix only on an
acknowledgement. Nothing here knows what an entry is. -/
namespace QuicMls.LogShipping

variable {Entry : Type*}

structure State (Entry : Type*) where
  history : List Entry
  applied : List Entry
  offered : Nat → Entry → Prop
  acknowledged : Nat → Prop
  trimmed : Nat

def initial : State Entry :=
  { history := [], applied := [], offered := fun _ _ => False,
    acknowledged := fun _ => False, trimmed := 0 }

inductive Move : State Entry → State Entry → Prop
  | produce (state : State Entry) (entry : Entry) :
      Move state { state with history := state.history ++ [entry] }
  | offer (state : State Entry) (batch : Nat → Entry → Prop)
      (genuine : ∀ index entry, batch index entry → state.history[index]? = some entry) :
      Move state { state with offered := fun index entry => state.offered index entry ∨ batch index entry }
  | apply (state : State Entry) (entry : Entry)
      (arrived : state.offered state.applied.length entry) :
      Move state { state with applied := state.applied ++ [entry] }
  | acknowledge (state : State Entry) :
      Move state { state with acknowledged := fun k => state.acknowledged k ∨ k = state.applied.length }
  | trim (state : State Entry) (k : Nat) (reported : state.acknowledged k) :
      Move state { state with trimmed := max state.trimmed (min k state.history.length) }

/-- Offers quote the history, the follower holds a prefix of it, and neither an
acknowledgement nor the discarded prefix runs ahead of the follower. -/
structure Safe (state : State Entry) : Prop where
  applied_isPrefix : state.applied <+: state.history
  genuine : ∀ index entry, state.offered index entry → state.history[index]? = some entry
  acknowledged_le : ∀ k, state.acknowledged k → k ≤ state.applied.length
  trimmed_le : state.trimmed ≤ state.applied.length

theorem initial_safe : Safe (initial : State Entry) where
  applied_isPrefix := List.prefix_refl []
  genuine := fun _ _ absurd => absurd.elim
  acknowledged_le := fun _ absurd => absurd.elim
  trimmed_le := Nat.le_refl 0

theorem quoted_after_append {history : List Entry} {index : Nat} {entry : Entry}
    (quoted : history[index]? = some entry) (fresh : Entry) :
    (history ++ [fresh])[index]? = some entry := by
  have inside : index < history.length := (List.getElem?_eq_some_iff.mp quoted).1
  rw [List.getElem?_append_left inside, quoted]

/-- An entry quoted at the follower's position extends its prefix. -/
theorem append_isPrefix {history applied : List Entry} {entry : Entry}
    (before : applied <+: history) (quoted : history[applied.length]? = some entry) :
    applied ++ [entry] <+: history := by
  obtain ⟨rest, rfl⟩ := before
  cases rest with
  | nil => simp at quoted
  | cons head tail =>
      have same : head = entry := by simpa using quoted
      exact ⟨tail, by simp [same]⟩

theorem Move.safe {before after : State Entry} (move : Move before after)
    (safe : Safe before) : Safe after := by
  obtain ⟨applied_isPrefix, genuine, acknowledged_le, trimmed_le⟩ := safe
  cases move with
  | produce entry =>
      exact ⟨applied_isPrefix.trans (List.prefix_append _ _),
        fun index e offered => quoted_after_append (genuine index e offered) entry,
        acknowledged_le, trimmed_le⟩
  | offer batch quotes =>
      refine ⟨applied_isPrefix, ?_, acknowledged_le, trimmed_le⟩
      rintro index entry (old | fresh)
      · exact genuine index entry old
      · exact quotes index entry fresh
  | apply entry arrived =>
      -- The bounds only get looser as the follower moves on.
      have grown : before.applied.length ≤ (before.applied ++ [entry]).length := by simp
      exact ⟨append_isPrefix applied_isPrefix (genuine _ entry arrived), genuine,
        fun k reported => (acknowledged_le k reported).trans grown, trimmed_le.trans grown⟩
  | acknowledge =>
      refine ⟨applied_isPrefix, genuine, ?_, trimmed_le⟩
      rintro k (old | rfl)
      · exact acknowledged_le k old
      · exact Nat.le_refl _
  | trim k reported =>
      -- Trimming is bounded by a report, and a report by what was applied.
      have bound := acknowledged_le k reported
      exact ⟨applied_isPrefix, genuine, acknowledged_le, by dsimp only; omega⟩

theorem Safe.along {before after : State Entry} (safe : Safe before)
    (path : Relation.ReflTransGen Move before after) : Safe after := by
  induction path with
  | refl => exact safe
  | tail _ move safe => exact move.safe safe

/-- What the follower still lacks is never discarded. -/
theorem Safe.retained {state : State Entry} (safe : Safe state) {index : Nat} {entry : Entry}
    (missing : state.applied.length ≤ index) (quoted : state.history[index]? = some entry) :
    (state.history.drop state.trimmed)[index - state.trimmed]? = some entry := by
  have below := safe.trimmed_le.trans missing
  rw [List.getElem?_drop, Nat.add_sub_cancel' below, quoted]

end QuicMls.LogShipping
