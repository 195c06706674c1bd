import QuicMls.ReportRefinement

/-! What the report channel delivers: the reports of a stream rise, none is ahead of the
receiver of commits, and a connection left to itself brings the sender's checkpoint to
the receiver's epoch. -/
namespace QuicMls.ReportDelivery
open BigEndian Groups Preamble Control CommitHistory MessageStream ReportSender Watch ReportPipeline
open ReportRefinement
open ReportStream hiding step

/-! ### A commit and its report -/

def connected : List Action :=
  [.createCommit, .sendPreamble 100 (fun _ => .ok ()), .deliver (datagramOf [(1, CounterGroup.commitOf 0)]),
    .connect, .link 0 .spawnReceiver, .link 0 .spawnSender]

/-- The report is written and delivered in two pieces. -/
def ownSteps : List LinkEvent :=
  [.sender .run, .sender .run, .sender (.take 4), .deliver 3, .sender (.take 5), .sender .run, .deliver 6, .poll]

def freshLink : Link := { Link.new with sending := true, receiving := true }

def reportedLink : Link :=
  { sender := { point := .changed, seen := 1, shouldReport := true, written := encode (.report 1) },
    sending := true, delivered := 9, unread := [], closed := false, receiving := true, running := true }

/-! ### Refinement -/

/-- Forgetting the tasks and the streams, every run is a run of the catch-up system, and
an honest one is honest. -/
theorem pipeline_refines {GA GB EA EB : Type} [ExportSecret GA EA] [ExportSecret GB EB] {Honest : Prop}
    {groupA : GA} {groupB : GB} {final : Pipeline GA GB}
    (run : Machine.Reachable step (fun _ action => Honest → honest action) (initial groupA groupB) final) :
    ∃ system, Machine.Reachable CatchUp.step (fun system action => Honest → CatchUp.honest system action)
        (CatchUp.initial groupA groupB) system ∧
      system.alice = final.alice ∧ system.socket = final.socket ∧ system.bob = final.bob.view ∧
      system.datagrams = final.datagrams := by
  have allowed : Machine.Reachable step (Allowed Honest False) (initial groupA groupB) final :=
    run.mono fun _ _ permitted => ⟨permitted, fun never => never.elim⟩
  obtain ⟨inFlight, path, -⟩ := @follows_of_run _ _ _ _ _ _ Honest False False _ _ _
    (fun _ _ never => never.elim) allowed
  exact ⟨catchUp final inFlight, path, rfl, rfl, rfl, rfl⟩

theorem pipeline_refines_connected : ∃ final,
    ∃ system : CatchUp.System CounterGroup CounterGroup,
    Machine.run step (initial CounterGroup.fresh CounterGroup.fresh)
      (connected ++ ownSteps.map (Action.link 0)) = some final ∧
      system.bob = final.bob.view ∧ system.alice = final.alice ∧ system.alice.checkpoint = 1 := by
  have view : (Machine.run step (initial CounterGroup.fresh CounterGroup.fresh)
      (connected ++ ownSteps.map (Action.link 0))).map (fun final => final.alice.checkpoint) = some 1 := by
    decide +kernel
  obtain ⟨final, ran, trimmed⟩ := Option.map_eq_some_iff.mp view
  have run : Machine.Reachable step (fun _ action => True → honest action) _ final :=
    Machine.reachable_of_run _ _ (by simp [connected, ownSteps, honest]) ran
  obtain ⟨system, -, alice, -, bob, -⟩ := pipeline_refines run
  exact ⟨final, system, ran, bob, alice, by rw [alice, trimmed]⟩

/-! ### Rising reports -/

/-- Rising words below a bound are few. -/
theorem length_le_of_rising {epochs : List UInt64} {bound : UInt64} (rising : epochs.Pairwise (· < ·))
    (below : ∀ epoch ∈ epochs, epoch ≤ bound) : epochs.length ≤ bound.toNat + 1 := by
  have distinct : (epochs.map UInt64.toNat).Nodup :=
    List.Nodup.map (fun _ _ same => UInt64.toNat_inj.mp same) (rising.imp fun earlier => ne_of_lt earlier)
  have inside : epochs.map UInt64.toNat ⊆ List.range (bound.toNat + 1) := by
    intro label member
    obtain ⟨epoch, among, rfl⟩ := List.mem_map.mp member
    have le := UInt64.le_iff_toNat_le.mp (below epoch among)
    exact List.mem_range.mpr (Nat.lt_succ_of_le le)
  have fits := (distinct.subperm inside).length_le
  rwa [List.length_map, List.length_range] at fits

section Rising
variable {epochTx : Channel UInt64} {Known Acted : UInt64 → Prop} {Steady : Prop} {link : Link}

/-- The reports a stream has carried whole. -/
theorem written_decodes {sender : SenderTask} {epochs : List UInt64} {rest : Bytes}
    (sound : Sound epochTx Known Steady sender epochs rest) :
    ∃ whole, whole <+: epochs ∧ (decodeStream sender.written).1 = whole.map .report := by
  have splits := readAll_splits framing sender.written
  obtain ⟨later, reported, -⟩ := sound_begins sound splits.whole.symm
  refine ⟨epochs.take (decodeStream sender.written).1.length, List.take_prefix _ _, ?_⟩
  rw [List.map_take, reported]
  exact (List.take_left' rfl).symm

end Rising

section Runs
variable {GA GB EA EB : Type} [ExportSecret GA EA] [ExportSecret GB EB]

/-- In any run, with injected datagrams and flags that change: the checkpoint stays at or
below the receiver's epoch; the whole reports on a stream rise and stay below it too, so
they are few; and the receiver of a stream has handled the first of them. -/
theorem reports_rise {groupA : GA} {groupB : GB} {final : Pipeline GA GB}
    (run : Machine.Reachable step (fun _ _ => True) (initial groupA groupB) final) :
    final.alice.checkpoint ≤ final.bob.localEpoch ∧ final.bob.epochTx.value = final.bob.localEpoch ∧
    ∀ link ∈ final.links, ∃ epochs : List UInt64,
      (decodeStream link.sender.written).1 = epochs.map .report ∧ epochs.Pairwise (· < ·) ∧
      (∀ epoch ∈ epochs, epoch ≤ final.bob.localEpoch) ∧ epochs.length ≤ final.bob.localEpoch.toNat + 1 ∧
      ∃ handled, link.sender.written.take link.delivered = handled.flatMap encode ++ link.unread ∧
        handled <+: epochs.map .report := by
  have allowed : Machine.Reachable step (Allowed False False) (initial groupA groupB) final :=
    run.mono fun _ _ _ => ⟨fun never => never.elim, fun never => never.elim⟩
  obtain ⟨inFlight, -, follows⟩ := @follows_of_run _ _ _ _ _ _ False False False _ _ _
    (fun _ _ never => never.elim) allowed
  refine ⟨follows.behind, follows.published, fun link member => ?_⟩
  obtain ⟨⟨begun, rest, sender⟩, delivered, handled, split, -⟩ := follows.links link member
  obtain ⟨epochs, front, decoded⟩ := written_decodes sender
  have rising : epochs.Pairwise (· < ·) := sender.rising.sublist front.sublist
  have below : ∀ epoch ∈ epochs, epoch ≤ final.bob.localEpoch := fun epoch among =>
    follows.published ▸ sender.le_value epoch (front.subset among)
  refine ⟨epochs, decoded, rising, below, length_le_of_rising rising below, handled, split, ?_⟩
  have begins : link.sender.written =
      handled.flatMap encode ++ (link.unread ++ link.sender.written.drop link.delivered) := by
    rw [← List.append_assoc, ← split, List.take_append_drop]
  obtain ⟨later, first, -⟩ := (readAll_splits framing link.sender.written).longest framing begins
  rw [← decoded]
  exact ⟨later, first.symm⟩

end Runs

theorem reports_rise_connected : ∃ final,
    Machine.run step (initial CounterGroup.fresh CounterGroup.fresh)
      (connected ++ ownSteps.map (Action.link 0)) = some final ∧
      reportedLink ∈ final.links ∧ final.alice.checkpoint ≤ final.bob.localEpoch := by
  have links : (Machine.run step (initial CounterGroup.fresh CounterGroup.fresh)
      (connected ++ ownSteps.map (Action.link 0))).map Pipeline.links = some [reportedLink] := by
    decide +kernel
  obtain ⟨final, ran, same⟩ := Option.map_eq_some_iff.mp links
  have run : Machine.Reachable step (fun _ _ => True) _ final :=
    Machine.reachable_of_run _ _ (fun _ _ _ => trivial) ran
  exact ⟨final, ran, by simp [same], (reports_rise run).1⟩

/-! ### A connection left to itself -/

/-- Nothing is left to do: the task waits with the latest version seen, and every byte
has been read. -/
structure Quiet (epochTx : Channel UInt64) (link : Link) : Prop where
  waits : link.sender.point = .changed
  seen : link.sender.seen = epochTx.version
  delivered : link.delivered = link.sender.written.length
  unread : link.unread = []

/-- Both tasks are there, neither has ended and the stream is open. -/
structure Live (epochTx : Channel UInt64) (link : Link) : Prop where
  published : epochTx.closed = false
  spawned : link.sending = true
  sending : link.sender.point ≠ .ended
  opened : link.closed = false
  receiving : link.receiving = true
  running : link.running = true

/-- The steps of the two tasks and of the stream between them. -/
def Own : LinkEvent → Prop
  | .sender .run => True
  | .sender (.take _) => True
  | .deliver _ => True
  | .poll => True
  | _ => False

/-- A byte is written, delivered and read; a report has nine of them. -/
def pointRank : Point → Nat
  | .borrow => 30
  | .load _ => 29
  | .write rest => 1 + 3 * rest.length
  | .changed => 0
  | .ended => 0

def rank (epochTx : Channel UInt64) (link : Link) : Nat :=
  (if link.sender.seen = epochTx.version then 0 else 31) + pointRank link.sender.point +
    2 * (link.sender.written.length - link.delivered) + link.unread.length

section Own
variable {epochTx : Channel UInt64} {Known Acted : UInt64 → Prop} {Steady : Prop} {link next : Link}
  {sender after : SenderTask}

theorem length_report (epoch : UInt64) : (encode (.report epoch)).length = 9 := by
  simp [encode, length_wordToBe]

/-- A step of the sending task lowers its part of the rank; bytes it has written count
two each from then on. -/
theorem run_lowers (published : epochTx.closed = false)
    (taken : reportSenderStep epochTx sender .run = some after) :
    after.point ≠ .ended ∧ after.written = sender.written ∧
      (if after.seen = epochTx.version then 0 else 31) + pointRank after.point <
        (if sender.seen = epochTx.version then 0 else 31) + pointRank sender.point := by
  cases point : sender.point with
  | borrow =>
      simp only [reportSenderStep, point, Option.some.injEq] at taken
      obtain rfl := taken
      refine ⟨by simp, rfl, ?_⟩
      simp only [Channel.borrowAndUpdate, pointRank, if_true]
      omega
  | load epoch =>
      simp only [reportSenderStep, point, Option.some.injEq] at taken
      obtain rfl := taken
      cases sender.shouldReport with
      | true =>
          refine ⟨by simp, rfl, ?_⟩
          simp only [if_true, pointRank, length_report]
          omega
      | false =>
          refine ⟨by simp, rfl, ?_⟩
          simp [pointRank]
  | write left =>
      cases left with
      | nil =>
          simp only [reportSenderStep, point, Option.some.injEq] at taken
          obtain rfl := taken
          refine ⟨by simp, rfl, ?_⟩
          simp [pointRank]
      | cons byte more => simp [reportSenderStep, point] at taken
  | changed =>
      simp only [reportSenderStep, point] at taken
      cases woken : epochTx.changed sender.seen with
      | none => simp [woken] at taken
      | some result =>
          cases result with
          | ok version =>
              obtain ⟨different, rfl⟩ := Channel.changed_ok woken
              simp only [woken, Option.some.injEq] at taken
              obtain rfl := taken
              refine ⟨by simp, rfl, ?_⟩
              simp [pointRank, different.symm]
          | error gone =>
              rw [Channel.changed, published] at woken
              split at woken <;> cases woken
  | ended => simp [reportSenderStep, point] at taken

theorem take_lowers {count : Nat} (taken : reportSenderStep epochTx sender (.take count) = some after) :
    after.point ≠ .ended ∧ after.seen = sender.seen ∧ 0 < count ∧
      after.written.length = sender.written.length + count ∧
      pointRank after.point + 3 * count = pointRank sender.point := by
  cases point : sender.point with
  | write left =>
      simp only [reportSenderStep, point] at taken
      split at taken
      · rename_i room
        obtain rfl := Option.some.inj taken
        refine ⟨by simp, rfl, room.1, ?_, ?_⟩
        · rw [List.length_append, List.length_take_of_le room.2]
        · simp only [pointRank, List.length_drop]
          omega
      · cases taken
  | borrow => simp [reportSenderStep, point] at taken
  | load epoch => simp [reportSenderStep, point] at taken
  | changed => simp [reportSenderStep, point] at taken
  | ended => simp [reportSenderStep, point] at taken

/-- What is unread begins with a report or is part of one. -/
theorem unread_good (sound : LinkSound epochTx Known Acted Steady link) : ¬ BadTag link.unread := by
  intro bad
  obtain ⟨⟨epochs, rest, sender⟩, -, handled, split, -⟩ := sound
  have front : handled.flatMap encode ++ (link.unread ++ link.sender.written.drop link.delivered) =
      link.sender.written := by
    rw [← List.append_assoc, ← split, List.take_append_drop]
  obtain ⟨later, -, behind⟩ := sound_begins sender front
  rw [List.append_assoc] at behind
  obtain ⟨text, read⟩ := bad.append (link.sender.written.drop link.delivered ++ rest)
  rw [behind] at read
  cases later with
  | nil => cases read
  | cons message messages =>
      rw [List.flatMap_cons, readMessage_encode] at read
      cases read

variable {G MlsError : Type} [ExportSecret G MlsError] {log trimmed : CommitLog G}

theorem own_lowers {event : LinkEvent} (own : Own event)
    (sound : LinkSound epochTx Known Acted Steady link) (live : Live epochTx link)
    (taken : link.step epochTx log event = some (trimmed, next)) :
    Live epochTx next ∧ rank epochTx next < rank epochTx link := by
  obtain ⟨published, spawned, sending, opened, receiving, running⟩ := live
  have inside := sound.delivered
  cases Link.moved_of_step taken with
  | @sender event sender _ ran =>
      cases event with
      | run =>
          obtain ⟨more, same, lower⟩ := run_lowers published ran
          refine ⟨⟨published, spawned, more, opened, receiving, running⟩, ?_⟩
          simp only [rank, same]
          omega
      | take count =>
          obtain ⟨more, seen, some, grown, lower⟩ := take_lowers ran
          refine ⟨⟨published, spawned, more, opened, receiving, running⟩, ?_⟩
          simp only [rank, seen, grown]
          omega
      | fail => exact own.elim
      | abort => exact own.elim
      | setShouldReport value => exact own.elim
  | @delivered count some room _ =>
      refine ⟨⟨published, spawned, sending, opened, receiving, running⟩, ?_⟩
      have chunk : ((link.sender.written.drop link.delivered).take count).length = count := by
        rw [List.length_take, List.length_drop]
        omega
      simp only [rank, List.length_append, chunk]
      omega
  | @handled message unread _ read =>
      refine ⟨⟨published, spawned, sending, opened, receiving, running⟩, ?_⟩
      have split := congrArg List.length (readMessage_sound _ _ _ read)
      have some := List.length_pos_of_ne_nil (framing.progress message)
      rw [List.length_append] at split
      simp only [rank]
      omega
  | stopped _ stuck final =>
      rcases final with closed | bad
      · exact absurd (closed.symm.trans opened) (by decide)
      · exact absurd bad (unread_good sound)
  | spawnSender absent => exact own.elim
  | closed => exact own.elim
  | spawnReceiver absent => exact own.elim
  | aborted => exact own.elim

/-- Where neither task nor the stream can move, nothing is left to do. -/
theorem quiet_of_stuck (sound : LinkSound epochTx Known Acted Steady link) (live : Live epochTx link)
    (stuck : ∀ event, Own event → link.step epochTx log event = none) : Quiet epochTx link := by
  obtain ⟨published, spawned, sending, opened, receiving, running⟩ := live
  obtain ⟨⟨epochs, rest, sender⟩, inside, handled, split, -⟩ := sound
  have waits : link.sender.point = .changed := by
    have still := stuck (.sender .run) trivial
    cases point : link.sender.point with
    | borrow => simp [Link.step, spawned, reportSenderStep, point] at still
    | load epoch => simp [Link.step, spawned, reportSenderStep, point] at still
    | write left =>
        cases left with
        | nil => simp [Link.step, spawned, reportSenderStep, point] at still
        | cons byte more =>
            have room := stuck (.sender (.take 1)) trivial
            simp [Link.step, spawned, reportSenderStep, point] at room
    | changed => rfl
    | ended => exact absurd point sending
  have seen : link.sender.seen = epochTx.version := by
    have still := stuck (.sender .run) trivial
    simp only [Link.step, if_pos spawned, reportSenderStep, waits, Option.map_eq_none_iff] at still
    cases woken : epochTx.changed link.sender.seen with
    | none => exact (Channel.changed_eq_none.mp woken).1.symm
    | some result => cases result <;> simp [woken] at still
  have delivered : link.delivered = link.sender.written.length := by
    by_contra behind
    have still := stuck (.deliver 1) trivial
    have room : 0 < 1 ∧ link.delivered + 1 ≤ link.sender.written.length := by omega
    rw [Link.step, if_pos room, Option.map_eq_none_iff, ReportStream.step, Link.task, opened] at still
    cases still
  refine ⟨waits, seen, delivered, ?_⟩
  have fits := sender.fits
  rw [waits] at fits
  obtain ⟨rfl, -⟩ := fits
  rw [delivered, List.take_length] at split
  obtain ⟨later, -, behind⟩ := sound_begins sender split.symm
  rw [List.append_nil] at behind
  cases later with
  | nil => exact behind
  | cons message messages =>
      -- A whole message is there to be read.
      have read : readMessage link.unread = .ok (message, messages.flatMap encode) := by
        rw [behind, List.flatMap_cons, readMessage_encode]
      have still := stuck .poll trivial
      have polled := @poll_message _ _ _ (link.task log) message _ running read
      rw [Link.step, if_pos receiving, polled] at still
      cases still

/-- And where nothing is left to do none of them moves. -/
theorem stuck_of_quiet (live : Live epochTx link) (quiet : Quiet epochTx link) {event : LinkEvent}
    (own : Own event) : link.step epochTx log event = none := by
  obtain ⟨waits, seen, delivered, unread⟩ := quiet
  have still : epochTx.changed link.sender.seen = none :=
    Channel.changed_eq_none.mpr ⟨seen.symm, live.published⟩
  match event, own with
  | .sender .run, _ => simp [Link.step, live.spawned, reportSenderStep, waits, still]
  | .sender (.take count), _ => simp [Link.step, live.spawned, reportSenderStep, waits]
  | .deliver count, _ =>
      rw [Link.step, if_neg]
      omega
  | .poll, _ =>
      have nothing : reportReceiverStep log [] = none := rfl
      have short : cutShort [] = true := rfl
      simp [Link.step, live.receiving, ReportStream.step, Link.task, live.running, unread, live.opened, nothing,
        short]

end Own

/-! ### Delivery -/

theorem labels_numbered {epoch : Nat} {commits : List Bytes} (fits : epoch + commits.length < 2 ^ 64) :
    (numbered epoch commits).map (fun entry => entry.1.toNat) = List.range' (epoch + 1) commits.length := by
  induction commits generalizing epoch with
  | nil => rfl
  | cons commit rest ih =>
      rw [List.length_cons] at fits
      have label : (UInt64.ofNat (epoch + 1)).toNat = epoch + 1 :=
        UInt64.toNat_ofNat_of_lt' (lt_of_le_of_lt (by omega : epoch + 1 ≤ epoch + (rest.length + 1)) fits)
      rw [numbered, List.map_cons, label, ih (by omega), List.length_cons, List.range'_succ]

/-- The log is trimmed to an epoch of the receiver: its window is labelled, in order, with
the epochs from there to the sender's. -/
structure Synced {G : Type} (log : CommitLog G) (localEpoch : UInt64) : Prop where
  checkpoint : log.checkpoint = localEpoch
  lacks : log.windowBytes.map (fun entry => entry.1.toNat) =
    List.range' (localEpoch.toNat + 1) (log.currentEpoch.toNat - localEpoch.toNat)

section Delivery
variable {GA Message EA : Type} [MlsGroup GA Message EA] [LawfulCommit GA] {GB EB : Type}
  [ExportSecret GB EB] {groupA : GA} {groupB : GB} {before final after : Pipeline GA GB}

/-- In the catch-up system the log stands for a history the receiver is in. -/
theorem history_of_run {system : CatchUp.System GA GB}
    (run : Machine.Reachable CatchUp.step (CatchUpAllowed True) (CatchUp.initial groupA groupB) system) :
    system.bob.localEpoch ≤ system.alice.currentEpoch ∧ ∃ history, Represents system.alice history := by
  obtain ⟨recorded, path, rfl⟩ := CatchUp.recorded_run run
  have fair : Machine.Reachable CatchUp.step CatchUp.honest _ recorded := path.mono fun _ action permitted => by
    have allowed := permitted trivial
    cases action <;> exact allowed
  obtain ⟨abstract, -, refines⟩ := CatchUpSafety.refines_of_run fair
  have ahead := refines.safe.applied_isPrefix.length_le
  rw [refines.tracks.position] at ahead
  have current := refines.log.current
  refine ⟨?_, abstract.history, current, refines.log.checkpoint_le, refines.log.entries⟩
  rw [UInt64.le_iff_toNat_le]
  exact ahead.trans_eq current.symm

theorem followed {Steady : Prop}
    (run : Machine.Reachable step (Allowed True Steady) (initial groupA groupB) final) :
    (∃ inFlight, Follows True Steady final inFlight) ∧ final.bob.localEpoch ≤ final.alice.currentEpoch ∧
      ∃ history, Represents final.alice history := by
  obtain ⟨inFlight, path, follows⟩ := @follows_of_run _ _ _ _ _ _ True True Steady groupA groupB final
    (fun _ path _ => (history_of_run path).1) run
  exact ⟨⟨inFlight, follows⟩, history_of_run path⟩

/-- Where a connection is quiet the checkpoint is the receiver's epoch, so the window is
what the receiver lacks. -/
theorem synced_of_quiet (run : Machine.Reachable step (Allowed True True) (initial groupA groupB) final)
    {link : Link} (member : link ∈ final.links) (quiet : Quiet final.bob.epochTx link) :
    Synced final.alice final.bob.localEpoch := by
  obtain ⟨⟨inFlight, follows⟩, -, history, represents⟩ := followed run
  have same : final.alice.checkpoint = final.bob.localEpoch := by
    apply le_antisymm follows.behind
    obtain ⟨⟨epochs, rest, sender⟩, -, handled, split, acted⟩ := follows.links link member
    obtain ⟨waits, seen, delivered, unread⟩ := quiet
    obtain ⟨-, latest⟩ := sender.upToDate trivial
    have fits := sender.fits
    rw [waits] at latest fits
    obtain ⟨rfl, -⟩ := fits
    rw [delivered, List.take_length, unread] at split
    -- The last report is the published epoch, and all of them have been handled.
    obtain ⟨later, reported, none⟩ := sound_begins sender split.symm
    have done : later = [] := by
      cases later with
      | nil => rfl
      | cons message messages =>
          rw [List.flatMap_cons, List.append_nil] at none
          exact absurd (List.append_eq_nil_iff.mp none.symm).1 (framing.progress message)
    rw [done, List.append_nil] at reported
    have last : ControlMessage.report final.bob.epochTx.value ∈ handled := by
      rw [← reported]
      exact List.mem_map_of_mem (latest seen)
    exact follows.published ▸ acted _ last trivial
  refine ⟨same, ?_⟩
  rw [represents.window_bytes, labels_numbered represents.suffix_fits, List.length_drop, represents.current,
    ← same]

/-- A connection none of whose own steps can be taken has delivered everything. -/
theorem synced_of_stuck {index : Nat} {link : Link}
    (run : Machine.Reachable step (Allowed True True) (initial groupA groupB) final)
    (found : final.links[index]? = some link) (live : Live final.bob.epochTx link)
    (stuck : ∀ event, Own event → ¬ (step final (.link index event)).isSome) :
    Synced final.alice final.bob.localEpoch := by
  obtain ⟨⟨inFlight, follows⟩, -⟩ := followed run
  have member := List.mem_of_getElem? found
  have still : ∀ event, Own event → link.step final.bob.epochTx final.alice event = none := by
    intro event mine
    by_contra moves
    obtain ⟨next, taken⟩ := Option.ne_none_iff_exists'.mp moves
    refine stuck event mine ?_
    simp only [step, found, taken]
    rfl
  exact synced_of_quiet run member (quiet_of_stuck (follows.links link member) live still)

/-- Steps of one connection leave everything but its link and the sender's log, and each
of them lowers the rank. -/
theorem own_run {index : Nat} {link : Link} {events : List LinkEvent}
    (run : Machine.Reachable step (Allowed True True) (initial groupA groupB) before)
    (found : before.links[index]? = some link) (live : Live before.bob.epochTx link)
    (own : ∀ event ∈ events, Own event)
    (ran : Machine.run step before (events.map (Action.link index)) = some after) :
    Machine.Reachable step (Allowed True True) (initial groupA groupB) after ∧ after.bob = before.bob ∧
      ∃ last, after.links[index]? = some last ∧ Live after.bob.epochTx last ∧
        events.length + rank after.bob.epochTx last ≤ rank before.bob.epochTx link := by
  induction events generalizing before link with
  | nil =>
      cases ran
      exact ⟨run, rfl, link, found, live, (Nat.zero_add _).le⟩
  | cons event rest ih =>
      obtain ⟨middle, taken, later⟩ := Machine.run_cons_iff.mp ran
      have here : Own event := own event List.mem_cons_self
      have permitted : Allowed True True before (.link index event) := by
        refine ⟨fun _ => trivial, fun _ => ?_⟩
        match event, here with
        | .sender .run, _ => trivial
        | .sender (.take _), _ => trivial
        | .deliver _, _ => trivial
        | .poll, _ => trivial
      have further := run.next _ permitted taken
      obtain ⟨⟨inFlight, follows⟩, -⟩ := followed run
      simp only [step, found, Option.map_eq_some_iff] at taken
      obtain ⟨⟨alice, next⟩, moved, rfl⟩ := taken
      obtain ⟨still, lower⟩ := own_lowers here (follows.links link (List.mem_of_getElem? found)) live moved
      have placed : (before.links.set index next)[index]? = some next := by
        rw [List.getElem?_set_self (List.getElem?_eq_some_iff.mp found).1]
      obtain ⟨reached, same, last, at_index, alive, fits⟩ :=
        ih further placed still (fun event member => own event (List.mem_cons_of_mem _ member)) later
      refine ⟨reached, same, last, at_index, alive, ?_⟩
      change _ ≤ rank before.bob.epochTx next at fits
      rw [List.length_cons]
      omega

/-- In an honest run that leaves `should_report` set, a quiet connection has delivered the
receiver's epoch. -/
theorem quiet_synced {link : Link}
    (run : Machine.Reachable step (fun _ action => honest action ∧ steady action) (initial groupA groupB) final)
    (member : link ∈ final.links) (quiet : Quiet final.bob.epochTx link) :
    Synced final.alice final.bob.localEpoch :=
  synced_of_quiet (run.mono fun _ _ permitted => ⟨fun _ => permitted.1, fun _ => permitted.2⟩) member quiet

end Delivery

theorem quiet_synced_connected : ∃ final,
    Machine.run step (initial CounterGroup.fresh CounterGroup.fresh)
      (connected ++ ownSteps.map (Action.link 0)) = some final ∧
      Synced final.alice final.bob.localEpoch := by
  have view : (Machine.run step (initial CounterGroup.fresh CounterGroup.fresh)
      (connected ++ ownSteps.map (Action.link 0))).map (fun final => (final.links, final.bob.epochTx)) =
        some ([reportedLink], (Channel.new 0).sendReplace 1) := by
    decide +kernel
  obtain ⟨final, ran, same⟩ := Option.map_eq_some_iff.mp view
  obtain ⟨links, epochTx⟩ := Prod.mk.inj same
  have run : Machine.Reachable step (fun _ action => honest action ∧ steady action) _ final :=
    Machine.reachable_of_run _ _ (by simp [connected, ownSteps, honest, steady]) ran
  have member : reportedLink ∈ final.links := by simp [links]
  have quiet : Quiet final.bob.epochTx reportedLink := by
    rw [epochTx]
    exact ⟨rfl, rfl, rfl, rfl⟩
  exact ⟨final, ran, quiet_synced run member quiet⟩

section Delivery
variable {GA Message EA : Type} [MlsGroup GA Message EA] [LawfulCommit GA] {GB EB : Type}
  [ExportSecret GB EB] {groupA : GA} {groupB : GB} {before after : Pipeline GA GB}

/-- The report of the first commit has been handled. -/
theorem reported_stuck {G E : Type} [ExportSecret G E] {log : CommitLog G} {event : LinkEvent} (own : Own event) :
    reportedLink.step { value := 1, version := 1, closed := false } log event = none :=
  stuck_of_quiet ⟨rfl, rfl, by decide, rfl, rfl, rfl⟩ ⟨rfl, rfl, rfl, rfl⟩ own

/-- No report is lost for good. In every state of every honest run that leaves
`should_report` set, a connection whose tasks and stream are up takes at most `rank` steps
of its own; once it can take none, the log is trimmed to the receiver's epoch; and its
steps change nothing at the receiver. -/
theorem reports_drain {index : Nat} {link : Link}
    (run : Machine.Reachable step (fun _ action => honest action ∧ steady action) (initial groupA groupB) before)
    (found : before.links[index]? = some link) (live : Live before.bob.epochTx link) (events : List LinkEvent)
    (own : ∀ event ∈ events, Own event)
    (ran : Machine.run step before (events.map (Action.link index)) = some after) :
    events.length ≤ rank before.bob.epochTx link ∧ after.bob = before.bob ∧
      ((∃ event, Own event ∧ (step after (.link index event)).isSome) ∨
        Synced after.alice before.bob.localEpoch) := by
  have allowed : Machine.Reachable step (Allowed True True) (initial groupA groupB) before :=
    run.mono fun _ _ permitted => ⟨fun _ => permitted.1, fun _ => permitted.2⟩
  obtain ⟨reached, same, last, at_index, alive, fits⟩ := own_run allowed found live own ran
  refine ⟨by omega, same, ?_⟩
  by_cases more : ∃ event, Own event ∧ (step after (.link index event)).isSome
  · exact Or.inl more
  · right
    rw [← same]
    exact synced_of_stuck reached at_index alive fun event mine moves => more ⟨event, mine, moves⟩

end Delivery

theorem reports_drain_connected : ∃ before after,
    Machine.run step (initial CounterGroup.fresh CounterGroup.fresh) connected = some before ∧
      Machine.run step before (ownSteps.map (Action.link 0)) = some after ∧
      ownSteps.length ≤ rank before.bob.epochTx freshLink ∧ before.alice.checkpoint = 0 ∧
      Synced after.alice 1 := by
  have view : (Machine.run step (initial CounterGroup.fresh CounterGroup.fresh) connected).map
      (fun before => (before.links, before.bob.epochTx.closed, before.bob.localEpoch, before.alice.checkpoint,
        (Machine.run step before (ownSteps.map (Action.link 0))).any fun after =>
          after.links = [reportedLink] ∧ after.bob.epochTx = { value := 1, version := 1, closed := false })) =
      some ([freshLink], false, 1, 0, true) := by
    decide +kernel
  obtain ⟨before, ran, same⟩ := Option.map_eq_some_iff.mp view
  simp only [Prod.mk.injEq] at same
  obtain ⟨links, opened, applied, behind, reported⟩ := same
  obtain ⟨after, later, done⟩ := (Option.any_eq_true _ _).mp reported
  obtain ⟨linksAfter, published⟩ := of_decide_eq_true done
  have run : Machine.Reachable step (fun _ action => honest action ∧ steady action) _ before :=
    Machine.reachable_of_run _ _ (by simp [connected, honest, steady]) ran
  have live : Live before.bob.epochTx freshLink := ⟨opened, rfl, by decide, rfl, rfl, rfl⟩
  have found : before.links[0]? = some freshLink := by rw [links]; rfl
  obtain ⟨few, -, more | synced⟩ := reports_drain run found live ownSteps (by simp [ownSteps, Own]) later
  · obtain ⟨event, mine, moves⟩ := more
    have there : after.links[0]? = some reportedLink := by rw [linksAfter]; rfl
    exact absurd moves (by simp [step, there, published, reported_stuck mine])
  · rw [applied] at synced
    exact ⟨before, after, ran, later, few, behind, synced⟩

end QuicMls.ReportDelivery
