import QuicMls.BigEndian

/-! Maps iterated in key order, as a list of bindings whose keys increase. The
order is a field, so every map that can be built enumerates without repeats. -/
namespace QuicMls

structure OrderedMap (Key Value : Type*) [LinearOrder Key] where
  entries : List (Key × Value)
  ordered : entries.Pairwise (fun a b => a.1 < b.1)

namespace OrderedMap

variable {Key Value : Type*} [LinearOrder Key]

@[ext] theorem ext {left right : OrderedMap Key Value} (same : left.entries = right.entries) :
    left = right := by
  cases left
  cases right
  cases same
  rfl

def empty : OrderedMap Key Value := ⟨[], List.Pairwise.nil⟩

def place (key : Key) (value : Value) : List (Key × Value) → List (Key × Value)
  | [] => [(key, value)]
  | head :: rest =>
      if key < head.1 then (key, value) :: head :: rest
      else if key = head.1 then (key, value) :: rest
      else head :: place key value rest

theorem mem_place {key : Key} {value : Value} {entries : List (Key × Value)} {entry : Key × Value}
    (member : entry ∈ place key value entries) : entry = (key, value) ∨ entry ∈ entries := by
  induction entries with
  | nil => exact Or.inl (List.mem_singleton.mp member)
  | cons head rest ih =>
      simp only [place] at member
      split at member
      · exact List.mem_cons.mp member
      · split at member
        · rcases List.mem_cons.mp member with same | later
          · exact Or.inl same
          · exact Or.inr (List.mem_cons_of_mem head later)
        · rcases List.mem_cons.mp member with same | later
          · exact Or.inr (List.mem_cons.mpr (Or.inl same))
          · rcases ih later with same | old
            · exact Or.inl same
            · exact Or.inr (List.mem_cons_of_mem head old)

theorem place_ordered (key : Key) (value : Value) {entries : List (Key × Value)}
    (ordered : entries.Pairwise (fun a b => a.1 < b.1)) :
    (place key value entries).Pairwise (fun a b => a.1 < b.1) := by
  induction entries with
  | nil => simp [place]
  | cons head rest ih =>
      obtain ⟨above, tail⟩ := List.pairwise_cons.mp ordered
      simp only [place]
      split
      · rename_i before
        refine List.pairwise_cons.mpr ⟨fun entry member => ?_, ordered⟩
        rcases List.mem_cons.mp member with rfl | later
        · exact before
        · exact before.trans (above entry later)
      · rename_i notBefore
        split
        · rename_i same
          exact List.pairwise_cons.mpr ⟨fun entry member => same ▸ above entry member, tail⟩
        · rename_i different
          have after : head.1 < key := lt_of_le_of_ne (not_lt.mp notBefore) (Ne.symm different)
          refine List.pairwise_cons.mpr ⟨fun entry member => ?_, ih tail⟩
          rcases mem_place member with rfl | old
          · exact after
          · exact above entry old

def insert (map : OrderedMap Key Value) (key : Key) (value : Value) : OrderedMap Key Value :=
  ⟨place key value map.entries, place_ordered key value map.ordered⟩

def retain (map : OrderedMap Key Value) (keep : Key → Value → Bool) : OrderedMap Key Value :=
  ⟨map.entries.filter (fun entry => keep entry.1 entry.2), map.ordered.filter _⟩

@[simp] theorem entries_empty : (empty : OrderedMap Key Value).entries = [] := rfl

@[simp] theorem entries_retain (map : OrderedMap Key Value) (keep : Key → Value → Bool) :
    (map.retain keep).entries = map.entries.filter (fun entry => keep entry.1 entry.2) := rfl

/-- A key above all others is appended. -/
theorem entries_insert_last (map : OrderedMap Key Value) {key : Key} (value : Value)
    (last : ∀ entry ∈ map.entries, entry.1 < key) :
    (map.insert key value).entries = map.entries ++ [(key, value)] := by
  obtain ⟨entries, ordered⟩ := map
  change place key value entries = entries ++ [(key, value)]
  change ∀ entry ∈ entries, entry.1 < key at last
  clear ordered
  induction entries with
  | nil => rfl
  | cons head rest ih =>
      have below := last head List.mem_cons_self
      rw [place, if_neg below.not_gt, if_neg below.ne', List.cons_append,
        ih (fun entry member => last entry (List.mem_cons_of_mem head member))]

end OrderedMap

end QuicMls
