import QuicMls.Recovery

/-! What one send of the whole window achieves: with an unbounded budget the
receiver catches up, with a bounded one it advances exactly when the budget
reaches past what it already has. -/
namespace QuicMls.Convergence
open BigEndian Groups Budget Transcript Preamble Control CommitHistory Recording CatchUp CatchUpSafety Recovery

/-! ### Schedules -/

/-- A datagram of the send under study, or anything else that happens meanwhile. -/
inductive Arrival where
  | fresh (datagram : Bytes)
  | other (action : Action)

def Arrival.action : Arrival → Action
  | .fresh datagram => .deliver datagram
  | .other action => action

def freshDatagrams : List Arrival → List Bytes
  | [] => []
  | .fresh datagram :: rest => datagram :: freshDatagrams rest
  | .other _ :: rest => freshDatagrams rest

/-- Stale deliveries, further sends and reports, but no commit and no outsider. -/
def Quiet : Action → Prop
  | .createCommit => False
  | .inject _ => False
  | _ => True

section Outcomes
variable {GA GB EA EB : Type} [ExportSecret GA EA] [ExportSecret GB EB]

/-- What `apply_commit_window` answers when a datagram reaches the sink. -/
def outcome (datagram : Bytes) (bob : Receiver GB) : Option (Except (CommitWindowError EB) Unit) :=
  match parsePreamble datagram with
  | some (.ok window) => some (applyCommitWindow bob.group window bob.localEpoch).1
  | _ => none

/-- The answers to the fresh datagrams of a schedule. -/
def outcomes : System GA GB → List Arrival → List (Option (Except (CommitWindowError EB) Unit))
  | _, [] => []
  | system, arrival :: rest =>
      let here := match arrival with
        | .fresh datagram => [outcome datagram system.bob]
        | .other _ => []
      match step system arrival.action with
      | some next => here ++ outcomes next rest
      | none => here

theorem outcome_datagramOf {bucket : Window}
    (decoded : decodeTranscript (encodeTranscript bucket usizeMax) = .ok bucket) (bob : Receiver GB) :
    outcome (datagramOf bucket) bob = some (applyCommitWindow bob.group bucket bob.localEpoch).1 := by
  have marked : isPreambleMarker PREAMBLE_MARKER = true := by decide
  rw [outcome, datagramOf, parsePreamble, if_pos marked, decoded]

theorem erase_run (system : System (Recorded GA) (Recorded GB)) (actions : List Action) :
    Machine.run step (erase system) actions = (Machine.run step system actions).map erase := by
  induction actions generalizing system with
  | nil => rfl
  | cons action rest ih =>
      rw [Machine.run, Machine.run, erase_step]
      cases step system action with
      | none => rfl
      | some next => exact ih next

end Outcomes

variable {GA MA EA : Type} [MlsGroup GA MA EA] {GB MB EB : Type} [MlsGroup GB MB EB]
variable {Same : GA → GB → Prop} {origin : Nat} {history : List Bytes}

/-! ### One bucket -/

theorem quotes_numbered {start : Nat} {segment : List Bytes} (fits : history.length < 2 ^ 64)
    (inside : start ≤ history.length) (quoted : segment <+: history.drop start) :
    Quotes (fun index commit => history[index]? = some commit) (numbered start segment) := by
  have size := quoted.length_le
  rw [List.length_drop] at size
  intro entry member
  obtain ⟨above, found⟩ := (mem_numbered (by omega)).mp member
  have shift : start + (entry.1.toNat - (start + 1)) = entry.1.toNat - 1 := by omega
  refine ⟨by omega, ?_⟩
  obtain ⟨rest, split⟩ := quoted
  have place := (List.getElem?_eq_some_iff.mp found).1
  rw [← shift, ← List.getElem?_drop, ← split, List.getElem?_append_left place, found]

/-- A bucket of consecutive commits, seen by a receiver that has reached it. -/
theorem receive_bucket (interop : Interop Same) {sender : GA} {bucket : Window} {start : Nat}
    {segment : List Bytes} {bob : Receiver GB}
    (decoded : decodeTranscript (encodeTranscript bucket usizeMax) = .ok bucket)
    (labelled : bucket = numbered start segment) (quoted : segment <+: history.drop start)
    (fits : history.length < 2 ^ 64) (reached : start ≤ bob.localEpoch.toNat)
    (inside : bob.localEpoch.toNat ≤ history.length)
    (behind : Behind Same (history.drop bob.localEpoch.toNat) sender bob.group) :
    outcome (datagramOf bucket) bob = some (.ok ()) ∧
      (receive (datagramOf bucket) bob).localEpoch.toNat =
        max bob.localEpoch.toNat (start + segment.length) ∧
      (receive (datagramOf bucket) bob).localEpoch.toNat ≤ history.length ∧
      Behind Same (history.drop (receive (datagramOf bucket) bob).localEpoch.toNat) sender
        (receive (datagramOf bucket) bob).group := by
  have applied := consecutive_window interop segment start bob.group bob.localEpoch quoted fits reached behind
  have moved := behind_window interop (numbered start segment) bob.group bob.localEpoch
    (quotes_numbered fits (reached.trans inside) quoted) inside behind
  rw [outcome_datagramOf decoded, receive_datagramOf decoded, labelled]
  exact ⟨by rw [applied.1], applied.2, moved⟩

/-- The buckets of a send, as runs of consecutive commits. -/
theorem head_bucket {bucket : Window} {rest : List Window} {start : Nat} {commits : List Bytes}
    (packed : (bucket :: rest).flatten = numbered start commits) :
    bucket = numbered start (commits.take bucket.length) ∧
      rest.flatten = numbered (start + bucket.length) (commits.drop bucket.length) :=
  numbered_split (by rw [← packed, List.flatten_cons])

theorem length_head {bucket : Window} {rest : List Window} {start : Nat} {commits : List Bytes}
    (packed : (bucket :: rest).flatten = numbered start commits) :
    (commits.take bucket.length).length = bucket.length := by
  have size := congrArg List.length (head_bucket packed).1
  rw [length_numbered] at size
  exact size.symm

/-- Where the commits of a send start in the history, the next bucket's do too. -/
theorem quoted_split {start : Nat} {commits : List Bytes} (quoted : commits <+: history.drop start)
    (count : Nat) :
    commits.take count <+: history.drop start ∧
      commits.drop count <+: history.drop (start + count) := by
  refine ⟨(List.take_prefix count commits).trans quoted, ?_⟩
  rw [← List.drop_drop]
  exact quoted.drop count

/-! ### A budgeted send -/

def receiveAll (bob : Receiver GB) (datagrams : List Bytes) : Receiver GB :=
  datagrams.foldl (fun bob datagram => receive datagram bob) bob

/-- Buckets delivered in order move the receiver to their end, unless it is past it. -/
theorem receiveAll_buckets (interop : Interop Same) {sender : GA} (buckets : List Window) (start : Nat)
    (commits : List Bytes) (bob : Receiver GB)
    (decoded : ∀ bucket ∈ buckets, decodeTranscript (encodeTranscript bucket usizeMax) = .ok bucket)
    (packed : buckets.flatten = numbered start commits) (quoted : commits <+: history.drop start)
    (fits : history.length < 2 ^ 64) (reached : start ≤ bob.localEpoch.toNat)
    (inside : bob.localEpoch.toNat ≤ history.length)
    (behind : Behind Same (history.drop bob.localEpoch.toNat) sender bob.group) :
    (receiveAll bob (buckets.map datagramOf)).localEpoch.toNat =
      max bob.localEpoch.toNat (start + commits.length) := by
  induction buckets generalizing start commits bob with
  | nil =>
      have size := congrArg List.length packed
      rw [List.flatten_nil, List.length_nil, length_numbered] at size
      change bob.localEpoch.toNat = _
      omega
  | cons bucket rest ih =>
      obtain ⟨labelled, later⟩ := head_bucket packed
      have length := length_head packed
      obtain ⟨here, beyond⟩ := quoted_split quoted bucket.length
      obtain ⟨_, moved, within, kept⟩ := receive_bucket interop
        (decoded bucket List.mem_cons_self) labelled here fits reached inside behind
      have next := ih (start + bucket.length) (commits.drop bucket.length) (receive (datagramOf bucket) bob)
        (fun b member => decoded b (List.mem_cons_of_mem bucket member)) later beyond
        (by rw [moved, length]; omega) within kept
      rw [length] at moved
      change (receiveAll (receive (datagramOf bucket) bob) (rest.map datagramOf)).localEpoch.toNat = _
      rw [next, moved, List.length_drop]
      have size : bucket.length ≤ commits.length := by
        rw [← length]
        exact List.length_take_le' bucket.length commits
      omega

/-- Delivering datagrams that are in flight. -/
theorem run_deliver {E F : Type} {G H : Type} [ExportSecret G E] [ExportSecret H F] (system : System G H)
    (datagrams : List Bytes) (inFlight : ∀ datagram ∈ datagrams, datagram ∈ system.datagrams) :
    Machine.run step system (datagrams.map Action.deliver) =
      some { system with bob := datagrams.foldl (fun bob datagram => receive datagram bob) system.bob } := by
  induction datagrams generalizing system with
  | nil => rfl
  | cons datagram rest ih =>
      have here := inFlight datagram List.mem_cons_self
      have later := ih { system with bob := receive datagram system.bob }
        (fun d member => inFlight d (List.mem_cons_of_mem datagram member))
      rw [List.map_cons, Machine.run, step, if_pos here]
      exact later

/-! ### What every reachable state offers -/

structure Standing (Same : GA → GB → Prop) (history : List Bytes) (system : System GA GB) : Prop where
  log : Represents system.alice history
  trimmed : system.alice.checkpoint.toNat ≤ system.bob.localEpoch.toNat
  inside : system.bob.localEpoch.toNat ≤ history.length
  published : system.bob.epochTx = system.bob.localEpoch
  behind : Behind Same (history.drop system.bob.localEpoch.toNat) system.alice.inner system.bob.group
  room : heapBytes system.alice ≤ usizeMax

theorem standing_of_followed {system : System (Recorded GA) (Recorded GB)}
    (followed : Followed Same origin system) : Standing Same system.alice.inner.created (erase system) := by
  obtain ⟨⟨abstract, refines⟩, lags, room⟩ := followed
  have trimmed := refines.safe.trimmed_le
  rw [refines.trimmed, refines.tracks.position] at trimmed
  have log := refines.log
  rw [refines.history] at log
  exact
    { log := ⟨log.current, log.checkpoint_le, log.entries⟩
      trimmed
      inside := localEpoch_le refines
      published := refines.published
      behind := lags
      room }

theorem standing_of_run [LawfulCommit GA] (interop : Interop Same) {groupA : GA} {groupB : GB}
    (same : Same groupA groupB) {state : System GA GB}
    (run : Machine.Reachable step honest (initial groupA groupB) state) :
    ∃ recorded, erase recorded = state ∧ Followed Same (MlsGroup.currentEpoch groupA).toNat recorded := by
  obtain ⟨recorded, path, erased⟩ := recorded_run run
  exact ⟨recorded, erased, followed_of_run interop same (path.mono fun _ _ permitted => permitted)⟩

/-- Under a budget, the send covers the affordable commits after the checkpoint. -/
theorem Standing.packed {state : System GA GB} (standing : Standing Same history state)
    (small : ∀ entry ∈ state.alice.windowBytes,
      TRANSCRIPT_HEADER_LEN + entryWireLen entry ≤ MAX_DATAGRAM_PAYLOAD - 1) (totalBudget : Nat) :
    (bucketWindow state.alice.windowBytes totalBudget (MAX_DATAGRAM_PAYLOAD - 1)).flatten =
      numbered state.alice.checkpoint.toNat ((history.drop state.alice.checkpoint.toNat).take
        (fit entryWireLen totalBudget state.alice.windowBytes).length) := by
  have all : sendable (MAX_DATAGRAM_PAYLOAD - 1) state.alice.windowBytes = state.alice.windowBytes :=
    List.takeWhile_eq_self_iff.mpr fun entry member => by simpa using small entry member
  have before : fit entryWireLen totalBudget state.alice.windowBytes <+: state.alice.windowBytes :=
    fit_isPrefix totalBudget _
  obtain ⟨rest, split⟩ := before
  have window := standing.log.window_bytes
  rw [bucketWindow_flatten, sentPrefix, all]
  exact (numbered_split (split.trans window)).1

/-- A send under a budget advances the receiver exactly when the budget pays for
every commit from the checkpoint to the first one the receiver lacks. -/
theorem budgeted_send_advances [LawfulCommit GA] (interop : Interop Same) {groupA : GA} {groupB : GB}
    (same : Same groupA groupB) {state : System GA GB}
    (run : Machine.Reachable step honest (initial groupA groupB) state)
    (lacking : state.bob.localEpoch < state.alice.currentEpoch) (totalBudget : Nat)
    (small : ∀ entry ∈ state.alice.windowBytes,
      TRANSCRIPT_HEADER_LEN + entryWireLen entry ≤ MAX_DATAGRAM_PAYLOAD - 1)
    {sendTo : Nat → Except String Unit} (delivered : ∀ k, sendTo k = .ok ()) :
    ∃ final, Machine.run step state (.sendPreamble totalBudget sendTo ::
        (state.socket.sendPreamble state.alice.windowBytes totalBudget sendTo).1.map .deliver) = some final ∧
      (state.bob.localEpoch < final.bob.localEpoch ↔
        total entryWireLen (state.alice.windowBytes.take
          (state.bob.localEpoch.toNat - state.alice.checkpoint.toNat + 1)) ≤ totalBudget) := by
  obtain ⟨recorded, rfl, followed⟩ := standing_of_run interop same run
  have standing := standing_of_followed followed
  generalize erase recorded = state at *
  generalize recorded.alice.inner.created = history at *
  have sent := sendPreamble_all state.socket state.alice.windowBytes totalBudget sendTo delivered
  have packed := standing.packed small totalBudget
  have window := congrArg List.length standing.log.window_bytes
  rw [length_numbered, List.length_drop] at window
  have current := standing.log.current
  rw [UInt64.lt_iff_toNat_lt, current] at lacking
  have trimmed := standing.trimmed
  have bought : (fit entryWireLen totalBudget state.alice.windowBytes).length ≤
      state.alice.windowBytes.length := (fit_isPrefix totalBudget _).length_le
  have moved := receiveAll_buckets interop _ state.alice.checkpoint.toNat _ state.bob
    (fun bucket member => (carried_bucketWindow _ _ member).2) packed (List.take_prefix _ _)
    standing.log.fits trimmed standing.inside standing.behind
  rw [List.length_take_of_le (by rw [List.length_drop]; omega)] at moved
  refine ⟨_, run_deliver _ _ fun datagram member => List.mem_append_right _ member, ?_⟩
  change _ < (receiveAll state.bob
    (state.socket.sendPreamble state.alice.windowBytes totalBudget sendTo).1).localEpoch ↔ _
  -- The receiver moves exactly when the bought prefix reaches its own position.
  rw [← lt_length_fit (by omega), UInt64.lt_iff_toNat_lt, sent, moved]
  omega

/-- Two commits with the receiver at the first one and nothing reported. -/
def stalled : List Action :=
  [.createCommit, .sendPreamble 21 (fun _ => .ok ()), .deliver (datagramOf [(1, CounterGroup.commitOf 0)]),
    .createCommit]

theorem stalled_runs :
    (Machine.run step (initial CounterGroup.fresh CounterGroup.fresh) stalled).isSome = true := by
  decide +kernel

def stalledState : System CounterGroup CounterGroup :=
  (Machine.run step (initial CounterGroup.fresh CounterGroup.fresh) stalled).get stalled_runs

theorem stalledState_reachable :
    Machine.Reachable step honest (initial CounterGroup.fresh CounterGroup.fresh) stalledState :=
  Machine.reachable_of_run _ stalled (by simp [stalled, honest]) (Option.some_get stalled_runs).symm

/-- With a budget of one commit the send repeats the commit the receiver has. -/
theorem budgeted_send_stalls :
    ∃ state : System CounterGroup CounterGroup,
      Machine.Reachable step honest (initial CounterGroup.fresh CounterGroup.fresh) state ∧
      state.bob.localEpoch < state.alice.currentEpoch ∧
      (∀ entry ∈ state.alice.windowBytes, entryWireLen entry ≤ 21 ∧
        TRANSCRIPT_HEADER_LEN + entryWireLen entry ≤ MAX_DATAGRAM_PAYLOAD - 1) ∧
      ∀ final, Machine.run step state (.sendPreamble 21 (fun _ => .ok ()) ::
          (state.socket.sendPreamble state.alice.windowBytes 21
            (fun _ => (.ok () : Except String Unit))).1.map .deliver) = some final →
        ¬ state.bob.localEpoch < final.bob.localEpoch := by
  refine ⟨stalledState, stalledState_reachable, by decide +kernel, by decide +kernel, ?_⟩
  intro final ran advanced
  have same : (Machine.run step stalledState (.sendPreamble 21 (fun _ => .ok ()) ::
      (stalledState.socket.sendPreamble stalledState.alice.windowBytes 21
        (fun _ => (.ok () : Except String Unit))).1.map .deliver)).map (fun s => s.bob.localEpoch) =
      some stalledState.bob.localEpoch := by
    decide +kernel
  rw [ran, Option.map_some, Option.some.injEq] at same
  rw [same] at advanced
  exact absurd advanced (by decide +kernel)

/-- A budget of two commits reaches past the first one. -/
theorem budgeted_send_advances_past :
    ∃ final, Machine.run step stalledState (.sendPreamble 42 (fun _ => .ok ()) ::
        (stalledState.socket.sendPreamble stalledState.alice.windowBytes 42
          (fun _ => (.ok () : Except String Unit))).1.map .deliver) = some final ∧
      stalledState.bob.localEpoch < final.bob.localEpoch := by
  obtain ⟨final, ran, advances⟩ := budgeted_send_advances counter_interop rfl stalledState_reachable
    (by decide +kernel) 42 (by decide +kernel) (fun _ => rfl)
  exact ⟨final, ran, advances.mpr (by decide +kernel)⟩

/-! ### A full send among other traffic -/

theorem localEpoch_mono {G H E F : Type} [ExportSecret G E] [ExportSecret H F] {system after : System G H}
    {action : Action} (taken : step system action = some after) :
    system.bob.localEpoch.toNat ≤ after.bob.localEpoch.toNat := by
  rcases step_bob taken with same | ⟨datagram, received, _⟩
  · rw [same]
  · rcases receive_cases datagram system.bob with ⟨same, _⟩ | ⟨window, sunk, _⟩
    · rw [received, same]
    · rw [received, sunk]
      exact window_mono window system.bob.group system.bob.localEpoch

theorem Quiet.honest {GA GB : Type} {system : System GA GB} {action : Action} (quiet : Quiet action) :
    CatchUp.honest system action := by
  cases action with
  | inject datagram => exact quiet.elim
  | createCommit | sendPreamble | deliver | sendReport | receiveReport => trivial

theorem Quiet.not_commit {action : Action} (quiet : Quiet action) : action ≠ .createCommit := by
  rintro rfl
  exact quiet

/-- One bucket of a send is delivered in a run. -/
theorem deliver_bucket (interop : Interop Same) {system next : System (Recorded GA) (Recorded GB)}
    (followed : Followed Same origin system) {bucket : Window} {start : Nat} {segment : List Bytes}
    (decoded : decodeTranscript (encodeTranscript bucket usizeMax) = .ok bucket)
    (labelled : bucket = numbered start segment)
    (quoted : segment <+: system.alice.inner.created.drop start)
    (reached : start ≤ system.bob.localEpoch.toNat)
    (taken : step system (.deliver (datagramOf bucket)) = some next) :
    outcome (datagramOf bucket) (erase system).bob = some (.ok ()) ∧
      next.bob.localEpoch.toNat = max system.bob.localEpoch.toNat (start + segment.length) := by
  have standing := standing_of_followed followed
  obtain ⟨answered, moved, _⟩ := receive_bucket interop decoded labelled quoted standing.log.fits reached
    standing.inside standing.behind
  have received : next.bob = receive (datagramOf bucket) system.bob := by
    simp only [step] at taken
    split at taken
    · rw [← Option.some.inj taken]
    · cases taken
  have shadow : eraseReceiver next.bob = receive (datagramOf bucket) (erase system).bob := by
    rw [received]
    exact (erase_receive _ system.bob).symm
  rw [← shadow] at moved
  exact ⟨answered, moved⟩

/-- While the buckets of a send arrive in order, the receiver reaches the end of
each of them, whatever else arrives in between. -/
theorem buckets_arrive [LawfulCommit GA] (interop : Interop Same) (arrivals : List Arrival)
    (buckets : List Window) (start : Nat) (commits : List Bytes)
    (system final : System (Recorded GA) (Recorded GB)) (followed : Followed Same origin system)
    (kept : system.alice.inner.created = history)
    (decoded : ∀ bucket ∈ buckets, decodeTranscript (encodeTranscript bucket usizeMax) = .ok bucket)
    (fresh : freshDatagrams arrivals = buckets.map datagramOf)
    (packed : buckets.flatten = numbered start commits) (quoted : commits <+: history.drop start)
    (reached : start ≤ system.bob.localEpoch.toNat)
    (quiet : ∀ action, .other action ∈ arrivals → Quiet action)
    (ran : Machine.run step system (arrivals.map Arrival.action) = some final) :
    Followed Same origin final ∧ final.alice.inner.created = history ∧
      start + commits.length ≤ final.bob.localEpoch.toNat ∧
      ∀ answer ∈ outcomes (erase system) arrivals, answer = some (.ok ()) := by
  -- The schedule is consumed one arrival at a time; only fresh ones use up a bucket.
  induction arrivals generalizing buckets start commits system with
  | nil =>
      obtain rfl : system = final := Option.some.inj ran
      obtain rfl : buckets = [] := List.map_eq_nil_iff.mp fresh.symm
      have size := congrArg List.length packed
      rw [List.flatten_nil, List.length_nil, length_numbered] at size
      exact ⟨followed, kept, by omega, fun answer absurd => by simp [outcomes] at absurd⟩
  | cons arrival rest ih =>
      have later : ∀ action, .other action ∈ rest → Quiet action :=
        fun action member => quiet action (List.mem_cons_of_mem arrival member)
      obtain ⟨next, taken, behind⟩ := Machine.run_cons_iff.mp ran
      have erased : step (erase system) arrival.action = some (erase next) := by
        rw [erase_step, taken, Option.map_some]
      cases arrival with
      | other action =>
          have calm := quiet action List.mem_cons_self
          have onward := followed.step interop calm.honest taken
          have created := step_inner calm.not_commit taken
          have further := localEpoch_mono taken
          have ended := ih buckets start commits next onward (by rw [created, kept]) decoded fresh packed
            quoted (by omega) later behind
          rw [outcomes, erased]
          exact ended
      | fresh datagram =>
          cases buckets with
          | nil => simp [freshDatagrams] at fresh
          | cons bucket more =>
              rw [freshDatagrams, List.map_cons, List.cons.injEq] at fresh
              obtain ⟨rfl, fresh⟩ := fresh
              obtain ⟨labelled, remaining⟩ := head_bucket packed
              obtain ⟨here, beyond⟩ := quoted_split quoted bucket.length
              have length := length_head packed
              obtain ⟨answered, position⟩ := deliver_bucket interop followed
                (decoded bucket List.mem_cons_self) labelled (kept ▸ here) reached taken
              have permitted : honest system (Arrival.fresh (datagramOf bucket)).action := trivial
              have onward := followed.step interop permitted taken
              have created := step_inner (by simp [Arrival.action]) taken
              rw [length] at position
              have ended := ih more (start + bucket.length) (commits.drop bucket.length) next onward
                (by rw [created, kept]) (fun b member => decoded b (List.mem_cons_of_mem bucket member))
                fresh remaining beyond (by omega) later behind
              obtain ⟨last, same, end_reached, answers⟩ := ended
              refine ⟨last, same, ?_, ?_⟩
              · have size : bucket.length ≤ commits.length := by
                  rw [← length]
                  exact List.length_take_le' bucket.length commits
                rw [List.length_drop] at end_reached
                omega
              · intro answer member
                rw [outcomes, erased] at member
                rcases List.mem_cons.mp member with rfl | after
                · exact answered
                · exact answers answer after

/-- A full send covers the whole window: memory bounds its size. -/
theorem Standing.packed_all {state : System GA GB} (standing : Standing Same history state)
    (small : ∀ entry ∈ state.alice.windowBytes, entry.2.length ≤ 1179) :
    (bucketWindow state.alice.windowBytes usizeMax (MAX_DATAGRAM_PAYLOAD - 1)).flatten =
      numbered state.alice.checkpoint.toNat (history.drop state.alice.checkpoint.toNat) := by
  have alone : ∀ entry ∈ state.alice.windowBytes,
      TRANSCRIPT_HEADER_LEN + entryWireLen entry ≤ MAX_DATAGRAM_PAYLOAD - 1 := by
    intro entry member
    have bound := small entry member
    simp only [TRANSCRIPT_HEADER_LEN, entryWireLen, MAX_DATAGRAM_PAYLOAD]
    omega
  -- The log lives in memory, so its wire size is below `usize::MAX`.
  have affordable : total entryWireLen state.alice.windowBytes ≤ usizeMax :=
    calc total entryWireLen state.alice.windowBytes
        ≤ total entryWireLen state.alice.commitLog.entries := total_filter_le _ _
      _ ≤ heapBytes state.alice := total_mono (fun entry => by rw [entryWireLen]; omega) _
      _ ≤ usizeMax := standing.room
  have size := congrArg List.length standing.log.window_bytes
  rw [length_numbered] at size
  rw [standing.packed alone usizeMax, fit_all affordable, size, List.take_length]

/-- Once the receiver has everything, its report empties the window. -/
theorem Standing.report_empties {state : System GA GB} (standing : Standing Same history state)
    (caught : state.bob.localEpoch.toNat = history.length) :
    ∃ reported, Machine.run step state
        [.sendReport, .receiveReport (encode (.report state.bob.localEpoch))] = some reported ∧
      reported.alice.windowBytes = [] := by
  have read := reportReceiverStep_report state.alice state.bob.localEpoch []
  rw [List.append_nil] at read
  obtain ⟨log, _, checkpoint⟩ := standing.log.trim state.bob.localEpoch
  have below := standing.log.checkpoint_le
  have emptied : (state.alice.trim state.bob.localEpoch).windowBytes = [] := by
    rw [log.window_bytes, List.drop_eq_nil_of_le (by omega), numbered]
  refine ⟨{ state with
    alice := state.alice.trim state.bob.localEpoch,
    reports := state.reports ++ [encode (.report state.bob.localEpoch)] }, ?_, emptied⟩
  simp only [Machine.run, step, standing.published, Option.bind_some]
  rw [if_pos (List.mem_append_right _ (List.mem_singleton.mpr rfl)), read]
  rfl

/-- Recovery converges in one full delivery. Whatever happened before, once the
datagrams of one full send have arrived in order among any other traffic but new
commits, the receiver is where the sender is, none of them was refused, and a
report leaves the sender nothing to offer. -/
theorem full_send_converges [LawfulCommit GA] (interop : Interop Same) {groupA : GA} {groupB : GB}
    (same : Same groupA groupB) {state final : System GA GB}
    (run : Machine.Reachable step honest (initial groupA groupB) state)
    (small : ∀ entry ∈ state.alice.windowBytes, entry.2.length ≤ 1179)
    {sendTo : Nat → Except String Unit} (delivered : ∀ k, sendTo k = .ok ()) {arrivals : List Arrival}
    (fresh : freshDatagrams arrivals =
      (state.socket.sendPreamble state.alice.windowBytes usizeMax sendTo).1)
    (quiet : ∀ action, .other action ∈ arrivals → Quiet action)
    (ran : Machine.run step state (.sendPreamble usizeMax sendTo :: arrivals.map Arrival.action) = some final) :
    (final.bob.localEpoch = final.alice.currentEpoch ∧
      final.alice.currentEpoch = state.alice.currentEpoch) ∧
    MlsGroup.currentEpoch final.bob.group = MlsGroup.currentEpoch final.alice.inner ∧
    (∀ answer ∈ outcomes state (.other (.sendPreamble usizeMax sendTo) :: arrivals),
      answer = some (.ok ())) ∧
    ∃ reported, Machine.run step final
        [.sendReport, .receiveReport (encode (.report final.bob.localEpoch))] = some reported ∧
      reported.alice.windowBytes = [] := by
  obtain ⟨recorded, rfl, followed⟩ := standing_of_run interop same run
  have before := standing_of_followed followed
  have sent := sendPreamble_all (erase recorded).socket (erase recorded).alice.windowBytes usizeMax sendTo
    delivered
  change Machine.run step (erase recorded)
    ((Arrival.other (.sendPreamble usizeMax sendTo) :: arrivals).map Arrival.action) = some final at ran
  have shadow := ran
  rw [erase_run, Option.map_eq_some_iff] at shadow
  obtain ⟨last, taken, rfl⟩ := shadow
  have quietly : ∀ action, .other action ∈ Arrival.other (.sendPreamble usizeMax sendTo) :: arrivals →
      Quiet action := by
    intro action member
    rcases List.mem_cons.mp member with first | later
    · obtain rfl := Arrival.other.inj first
      trivial
    · exact quiet action later
  obtain ⟨ended, created, reached, answers⟩ := buckets_arrive interop
    (.other (.sendPreamble usizeMax sendTo) :: arrivals) _ (erase recorded).alice.checkpoint.toNat _
    recorded last followed rfl
    (fun bucket member => (carried_bucketWindow _ _ member).2) (fresh.trans sent)
    (before.packed_all small) (List.prefix_refl _) before.trimmed quietly taken
  have after := standing_of_followed ended
  rw [created] at after
  have caught : (erase last).bob.localEpoch.toNat = recorded.alice.inner.created.length := by
    have inside := after.inside
    change _ ≤ (erase last).bob.localEpoch.toNat at reached
    rw [List.length_drop] at reached
    omega
  have position : (erase last).bob.localEpoch = (erase last).alice.currentEpoch :=
    UInt64.toNat_inj.mp (by rw [after.log.current]; exact caught)
  have unmoved : (erase last).alice.currentEpoch = (erase recorded).alice.currentEpoch :=
    UInt64.toNat_inj.mp (by rw [after.log.current, before.log.current])
  -- Nothing is pending any more, so the two groups are in the same state.
  have together : MlsGroup.currentEpoch (erase last).bob.group =
      MlsGroup.currentEpoch (erase last).alice.inner := by
    obtain ⟨middle, agree, produces⟩ := after.behind
    rw [List.drop_eq_nil_of_le caught.ge] at produces
    cases produces with
    | none => exact (interop.epoch _ _ agree).symm
  exact ⟨⟨position, unmoved⟩, together, answers, after.report_empties caught⟩

/-- Both commits of a lossy start arrive in one datagram after a stale one. -/
theorem full_send_converges_stalled :
    ∃ final, Machine.run step stalledState
        [.sendPreamble usizeMax (fun _ => .ok ()), .deliver (datagramOf [(1, CounterGroup.commitOf 0)]),
          .deliver (datagramOf [(1, CounterGroup.commitOf 0), (2, CounterGroup.commitOf 1)])] = some final ∧
      final.bob.localEpoch = final.alice.currentEpoch := by
  cases ran : Machine.run step stalledState
      [.sendPreamble usizeMax (fun _ => .ok ()), .deliver (datagramOf [(1, CounterGroup.commitOf 0)]),
        .deliver (datagramOf [(1, CounterGroup.commitOf 0), (2, CounterGroup.commitOf 1)])] with
  | none => exact absurd ran (by decide +kernel)
  | some final =>
      have converged := full_send_converges counter_interop rfl stalledState_reachable (by decide +kernel)
        (fun _ => rfl)
        (show freshDatagrams [.other (.deliver (datagramOf [(1, CounterGroup.commitOf 0)])),
          .fresh (datagramOf [(1, CounterGroup.commitOf 0), (2, CounterGroup.commitOf 1)])] = _ by
            decide +kernel)
        (by simp [Quiet]) ran
      exact ⟨final, rfl, converged.1.1⟩

end QuicMls.Convergence
