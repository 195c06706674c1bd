import Mathlib

/-! Partial step machines, their reachable states and forward simulation. An
action that is not enabled has no successor. Which actions the environment may
take is a parameter, so one machine serves honest and hostile schedules alike. -/
namespace QuicMls.Machine

variable {State Action : Type*}

/-- States reached from `start` when every action is allowed in the state that
takes it. -/
inductive Reachable (step : State → Action → Option State)
    (allowed : State → Action → Prop) (start : State) : State → Prop
  | start : Reachable step allowed start start
  | next {before after : State} (action : Action)
      (run : Reachable step allowed start before)
      (permitted : allowed before action)
      (taken : step before action = some after) : Reachable step allowed start after

variable {step : State → Action → Option State} {allowed : State → Action → Prop}
  {start final : State}

theorem Reachable.invariant {Good : State → Prop} (run : Reachable step allowed start final)
    (initially : Good start)
    (kept : ∀ before action after, Good before → allowed before action →
      step before action = some after → Good after) : Good final := by
  induction run with
  | start => exact initially
  | next action _ permitted taken ih => exact kept _ action _ ih permitted taken

theorem Reachable.trans {middle : State} (first : Reachable step allowed start middle)
    (second : Reachable step allowed middle final) : Reachable step allowed start final := by
  induction second with
  | start => exact first
  | next action _ permitted taken ih => exact .next action ih permitted taken

theorem Reachable.mono {wider : State → Action → Prop}
    (run : Reachable step allowed start final)
    (included : ∀ state action, allowed state action → wider state action) :
    Reachable step wider start final := by
  induction run with
  | start => exact .start
  | next action _ permitted taken ih => exact .next action ih (included _ action permitted) taken

/-- Every concrete execution is matched by an abstract one of some length. -/
theorem Reachable.simulates {Abstract : Type*} {move : Abstract → Abstract → Prop}
    {Refines : State → Abstract → Prop} {origin : Abstract}
    (run : Reachable step allowed start final) (initially : Refines start origin)
    (follows : ∀ before action after abstract, Refines before abstract →
      allowed before action → step before action = some after →
      ∃ next, Relation.ReflTransGen move abstract next ∧ Refines after next) :
    ∃ abstract, Relation.ReflTransGen move origin abstract ∧ Refines final abstract := by
  induction run with
  | start => exact ⟨origin, .refl, initially⟩
  | next action _ permitted taken ih =>
      obtain ⟨abstract, path, refines⟩ := ih
      obtain ⟨next, more, refined⟩ := follows _ action _ abstract refines permitted taken
      exact ⟨next, path.trans more, refined⟩

def run (step : State → Action → Option State) : State → List Action → Option State
  | state, [] => some state
  | state, action :: rest => (step state action).bind fun next => run step next rest

theorem run_cons_iff {start : State} {action : Action} {rest : List Action} :
    run step start (action :: rest) = some final ↔
      ∃ next, step start action = some next ∧ run step next rest = some final :=
  Option.bind_eq_some_iff

theorem run_append (start : State) (front back : List Action) :
    run step start (front ++ back) = (run step start front).bind fun middle => run step middle back := by
  induction front generalizing start with
  | nil => rfl
  | cons action rest ih =>
      rw [List.cons_append, run, run, Option.bind_assoc]
      exact congrArg _ (funext fun next => ih next)

/-- What every step pays for, a run has paid for. -/
theorem run_le_sum {Weight : Type*} [AddCommMonoid Weight] [Preorder Weight] [AddRightMono Weight]
    {potential : State → Weight} {weight : Action → Weight} {start : State} {actions : List Action}
    (pays : ∀ before action after, step before action = some after →
      potential after ≤ potential before + weight action)
    (ran : run step start actions = some final) :
    potential final ≤ potential start + (actions.map weight).sum := by
  induction actions generalizing start with
  | nil =>
      cases ran
      rw [List.map_nil, List.sum_nil, add_zero]
  | cons action rest ih =>
      obtain ⟨next, taken, later⟩ := run_cons_iff.mp ran
      calc potential final
          ≤ potential next + (rest.map weight).sum := ih later
        _ ≤ potential start + weight action + (rest.map weight).sum :=
            add_le_add_left (pays start action next taken) _
        _ = potential start + ((action :: rest).map weight).sum := by
            rw [List.map_cons, List.sum_cons, add_assoc]

/-- What holds at the start and moves with every step holds of a run and its length. -/
theorem run_counted {Good : Nat → State → Prop} {start : State} {actions : List Action}
    (initially : Good 0 start)
    (kept : ∀ count before action after, Good count before → step before action = some after →
      Good (count + 1) after)
    (ran : run step start actions = some final) : Good actions.length final := by
  induction actions using List.reverseRecOn generalizing final with
  | nil =>
      cases ran
      exact initially
  | append_singleton front action ih =>
      rw [run_append, Option.bind_eq_some_iff] at ran
      obtain ⟨middle, before, last⟩ := ran
      obtain ⟨next, taken, same⟩ := run_cons_iff.mp last
      cases same
      rw [List.length_append, List.length_singleton]
      exact kept _ middle action _ (ih before) taken

theorem reachable_of_run (start : State) (actions : List Action)
    (permitted : ∀ state, ∀ action ∈ actions, allowed state action)
    (ran : run step start actions = some final) : Reachable step allowed start final := by
  induction actions generalizing start with
  | nil =>
      have same : start = final := by simpa [run] using ran
      exact same ▸ .start
  | cons action rest ih =>
      obtain ⟨next, taken, later⟩ := run_cons_iff.mp ran
      have behind := ih next (fun state a member => permitted state a (List.mem_cons_of_mem _ member)) later
      exact (Reachable.start.next action (permitted start action List.mem_cons_self) taken).trans behind

end QuicMls.Machine
