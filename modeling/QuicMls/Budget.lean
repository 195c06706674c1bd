import QuicMls.LogShipping

/-! Prefixes bought with a budget. A greedy loop that pays for entries in order
and stops at the first one it cannot afford buys the longest affordable prefix,
and one that fills each group before it opens the next opens the fewest. -/
namespace QuicMls.Budget

variable {Entry : Type*} {cost : Entry → Nat}

def total (cost : Entry → Nat) (entries : List Entry) : Nat := (entries.map cost).sum

@[simp] theorem total_nil : total cost [] = 0 := rfl

@[simp] theorem total_cons (entry : Entry) (rest : List Entry) :
    total cost (entry :: rest) = cost entry + total cost rest := by
  simp [total]

@[simp] theorem total_append (front back : List Entry) :
    total cost (front ++ back) = total cost front + total cost back := by
  simp [total]

theorem cost_le_total {entry : Entry} {entries : List Entry} (member : entry ∈ entries) :
    cost entry ≤ total cost entries :=
  List.single_le_sum (fun _ _ => Nat.zero_le _) _ (List.mem_map_of_mem member)

theorem total_filter_le (keep : Entry → Bool) (entries : List Entry) :
    total cost (entries.filter keep) ≤ total cost entries :=
  (List.filter_sublist.map cost).sum_le_sum fun _ _ => Nat.zero_le _

theorem total_mono {other : Entry → Nat} (dearer : ∀ entry, cost entry ≤ other entry)
    (entries : List Entry) : total cost entries ≤ total other entries :=
  List.sum_le_sum fun entry _ => dearer entry

/-- The greedy loop. -/
def fit (cost : Entry → Nat) : Nat → List Entry → List Entry
  | _, [] => []
  | room, entry :: rest => if cost entry ≤ room then entry :: fit cost (room - cost entry) rest else []

theorem fit_isPrefix (room : Nat) (entries : List Entry) : fit cost room entries <+: entries := by
  induction entries generalizing room with
  | nil => exact List.prefix_refl []
  | cons entry rest ih =>
      rw [fit]
      split
      · exact (List.prefix_cons_inj entry).mpr (ih _)
      · exact List.nil_prefix

/-- Position `index` is bought exactly when everything up to it is affordable. -/
theorem lt_length_fit {room index : Nat} {entries : List Entry} (inside : index < entries.length) :
    index < (fit cost room entries).length ↔ total cost (entries.take (index + 1)) ≤ room := by
  induction entries generalizing room index with
  | nil => simp at inside
  | cons entry rest ih =>
      -- Paying for the head leaves the same question about the tail with less room.
      rw [fit, List.take_succ_cons, total_cons]
      by_cases affordable : cost entry ≤ room
      · rw [if_pos affordable]
        cases index with
        | zero => simpa using affordable
        | succ index =>
            have tail : index < rest.length := by simpa using inside
            rw [List.length_cons, Nat.add_lt_add_iff_right, ih tail]
            omega
      · rw [if_neg affordable]
        simp only [List.length_nil, Nat.not_lt_zero, false_iff]
        omega

theorem fit_affordable (room : Nat) (entries : List Entry) :
    total cost (fit cost room entries) ≤ room := by
  rcases Nat.eq_zero_or_pos (fit cost room entries).length with empty | some
  · simp [List.eq_nil_of_length_eq_zero empty]
  · have before : fit cost room entries <+: entries := fit_isPrefix room entries
    have size := before.length_le
    have last : (fit cost room entries).length - 1 < entries.length := by omega
    have back : (fit cost room entries).length - 1 + 1 = (fit cost room entries).length := by omega
    have bought := (lt_length_fit last).mp (show _ < (fit cost room entries).length by omega)
    rwa [back, ← List.prefix_iff_eq_take.mp before] at bought

/-- The loop ends with the list or before an entry it cannot afford. -/
theorem fit_stops (room : Nat) (entries : List Entry) :
    fit cost room entries = entries ∨ ∃ entry rest, entries = fit cost room entries ++ entry :: rest ∧
      room < total cost (fit cost room entries) + cost entry := by
  induction entries generalizing room with
  | nil => exact Or.inl rfl
  | cons head tail ih =>
      rw [fit]
      by_cases affordable : cost head ≤ room
      · rw [if_pos affordable]
        rcases ih (room - cost head) with all | ⟨entry, rest, split, exceeds⟩
        · exact Or.inl (by rw [all])
        · refine Or.inr ⟨entry, rest, by rw [List.cons_append, ← split], ?_⟩
          rw [total_cons]
          omega
      · rw [if_neg affordable]
        exact Or.inr ⟨head, tail, rfl, by rw [total_nil]; omega⟩

/-- Nothing longer is affordable. -/
theorem fit_longest {room : Nat} {entries front : List Entry} (before : front <+: entries)
    (affordable : total cost front ≤ room) : front.length ≤ (fit cost room entries).length := by
  rcases Nat.eq_zero_or_pos front.length with empty | some
  · omega
  · have size := before.length_le
    have last : front.length - 1 < entries.length := by omega
    have back : front.length - 1 + 1 = front.length := by omega
    have bought : front.length - 1 < (fit cost room entries).length := by
      rw [lt_length_fit last, back, ← List.prefix_iff_eq_take.mp before]
      exact affordable
    omega

theorem fit_all {room : Nat} {entries : List Entry} (affordable : total cost entries ≤ room) :
    fit cost room entries = entries :=
  (fit_isPrefix room entries).eq_of_length_le (fit_longest (List.prefix_refl entries) affordable)

theorem take_length_fit (room : Nat) (entries : List Entry) :
    entries.take (fit cost room entries).length = fit cost room entries :=
  (List.prefix_iff_eq_take.mp (fit_isPrefix room entries)).symm

/-! ### Consecutive groups -/

/-- The second group starts with an entry that the first has no room for. -/
def NoRoom (cost : Entry → Nat) (room : Nat) (first second : List Entry) : Prop :=
  ∃ head tail, second = head :: tail ∧ room < total cost first + cost head

theorem flatten_ne_nil {groups : List (List Entry)} (kept : ∀ group ∈ groups, group ≠ [])
    (empty : groups.flatten = []) : groups = [] := by
  cases groups with
  | nil => rfl
  | cons group rest =>
      rw [List.flatten_cons, List.append_eq_nil_iff] at empty
      exact absurd empty.1 (kept group List.mem_cons_self)

/-- No cut into affordable groups has fewer groups than the one that fills each
group before it opens the next, also when the cut has more entries in front. -/
theorem fewest_groups {room : Nat} {others groups : List (List Entry)} {skipped : List Entry}
    (affordable : ∀ group ∈ others, total cost group ≤ room) (kept : ∀ group ∈ groups, group ≠ [])
    (full : groups.IsChain (NoRoom cost room)) (same : others.flatten = skipped ++ groups.flatten) :
    groups.length ≤ others.length := by
  -- One group of the other cut never reaches past the end of one full group.
  induction others generalizing groups skipped with
  | nil =>
      have empty := List.append_eq_nil_iff.mp same.symm
      rw [flatten_ne_nil kept empty.2]
  | cons other rest ih =>
      have later := fun groups skipped =>
        @ih groups skipped fun group member => affordable group (List.mem_cons_of_mem other member)
      rw [List.flatten_cons, List.append_eq_append_iff] at same
      rcases same with ⟨left, _, covered⟩ | ⟨taken, split, covered⟩
      · exact (later groups left kept full covered).trans (Nat.le_succ _)
      · cases groups with
        | nil => exact Nat.zero_le _
        | cons group behind =>
            have keptBehind : ∀ group ∈ behind, group ≠ [] :=
              fun group member => kept group (List.mem_cons_of_mem _ member)
            rw [List.flatten_cons, List.append_eq_append_iff] at covered
            rcases covered with ⟨extra, reaches, covered⟩ | ⟨left, _, covered⟩
            · have nothing : extra = [] := by
                cases behind with
                | nil => exact (List.append_eq_nil_iff.mp covered.symm).1
                | cons second others =>
                    obtain ⟨⟨head, tail, rfl, exceeds⟩, _⟩ := List.isChain_cons_cons.mp full
                    cases extra with
                    | nil => rfl
                    | cons first extra =>
                        have start : first = head := by
                          rw [List.flatten_cons, List.cons_append, List.cons_append] at covered
                          exact (List.cons.inj covered).1.symm
                        have cost_other := affordable other List.mem_cons_self
                        rw [split, reaches, start] at cost_other
                        simp only [total_append, total_cons] at cost_other
                        omega
              rw [nothing, List.nil_append] at covered
              exact Nat.succ_le_succ (later behind [] keptBehind full.tail covered.symm)
            · exact Nat.succ_le_succ (later behind left keptBehind full.tail covered)

end QuicMls.Budget
