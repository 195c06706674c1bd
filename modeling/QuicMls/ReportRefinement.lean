import QuicMls.ReportPipeline

/-! The pipeline refines the catch-up system. What has been written on a stream is a list
of reports that were borrowed, so what the receiver of a stream reads is a report that
the catch-up system has in flight. -/
namespace QuicMls.ReportRefinement
open BigEndian Groups Preamble Control MessageStream ReportSender Watch ReportPipeline
open ReportStream hiding step

/-! ### One connection -/

/-- The reports a stream carries are `Known`, and those already handled are `Acted` on. -/
structure LinkSound (epochTx : Channel UInt64) (Known Acted : UInt64 → Prop) (Steady : Prop) (link : Link) :
    Prop where
  sender : ∃ epochs rest, Sound epochTx Known Steady link.sender epochs rest
  delivered : link.delivered ≤ link.sender.written.length
  handled : ∃ handled : List ControlMessage,
    link.sender.written.take link.delivered = handled.flatMap encode ++ link.unread ∧
      ∀ epoch, .report epoch ∈ handled → Acted epoch

theorem written_grows {epochRx : Channel UInt64} {sender after : SenderTask} {event : ReportSender.Event}
    (taken : reportSenderStep epochRx sender event = some after) : sender.written <+: after.written := by
  cases event with
  | run =>
      cases point : sender.point with
      | borrow =>
          simp only [reportSenderStep, point, Option.some.injEq] at taken
          exact taken ▸ List.prefix_refl _
      | load epoch =>
          simp only [reportSenderStep, point, Option.some.injEq] at taken
          exact taken ▸ List.prefix_refl _
      | write left =>
          cases left with
          | nil =>
              simp only [reportSenderStep, point, Option.some.injEq] at taken
              exact taken ▸ List.prefix_refl _
          | cons byte more => simp [reportSenderStep, point] at taken
      | changed =>
          simp only [reportSenderStep, point] at taken
          split at taken
          · cases taken
          · exact Option.some.inj taken ▸ List.prefix_refl _
          · exact Option.some.inj taken ▸ List.prefix_refl _
      | ended => simp [reportSenderStep, point] at taken
  | take count =>
      rw [reportSenderStep] at taken
      split at taken
      · split at taken
        · exact Option.some.inj taken ▸ List.prefix_append _ _
        · cases taken
      · cases taken
  | fail =>
      rw [reportSenderStep] at taken
      split at taken
      · exact Option.some.inj taken ▸ List.prefix_refl _
      · cases taken
  | abort => exact Option.some.inj taken ▸ List.prefix_refl _
  | setShouldReport value => exact Option.some.inj taken ▸ List.prefix_refl _

theorem take_of_begins {front whole : Bytes} {count : Nat} (grows : front <+: whole)
    (inside : count ≤ front.length) : whole.take count = front.take count := by
  obtain ⟨more, rfl⟩ := grows
  exact List.take_append_of_le_length inside

section Link
variable {epochTx : Channel UInt64} {Known Acted : UInt64 → Prop} {Steady : Prop} {link next : Link}

theorem new_sound : LinkSound epochTx Known Acted Steady Link.new where
  sender := ⟨[], [], spawn_sound 0⟩
  delivered := Nat.zero_le _
  handled := ⟨[], rfl, fun _ absurd => by cases absurd⟩

theorem LinkSound.mono {More Done : UInt64 → Prop} (sound : LinkSound epochTx Known Acted Steady link)
    (grows : ∀ epoch, Known epoch → More epoch) (acts : ∀ epoch, Acted epoch → Done epoch) :
    LinkSound epochTx More Done Steady link := by
  obtain ⟨⟨epochs, rest, sender⟩, delivered, handled, split, acted⟩ := sound
  exact ⟨⟨epochs, rest, sender.mono grows⟩, delivered, handled, split,
    fun epoch member => acts epoch (acted epoch member)⟩

theorem LinkSound.sendReplace {epoch : UInt64} (sound : LinkSound epochTx Known Acted Steady link)
    (rises : epochTx.value < epoch) : LinkSound (epochTx.sendReplace epoch) Known Acted Steady link := by
  obtain ⟨epochs, rest, sender⟩ := sound.sender
  exact ⟨⟨epochs, rest, sender.sendReplace rises⟩, sound.delivered, sound.handled⟩

theorem LinkSound.close (sound : LinkSound epochTx Known Acted Steady link) :
    LinkSound { epochTx with closed := true } Known Acted Steady link := by
  obtain ⟨epochs, rest, sender⟩ := sound.sender
  exact ⟨⟨epochs, rest, sender.close⟩, sound.delivered, sound.handled⟩

/-- A list of whole messages has nothing after its last one. -/
theorem splits_reports (epochs : List UInt64) :
    Splits encode readMessage (reports epochs) (epochs.map .report) [] :=
  ⟨(List.append_nil _).symm, .unexpectedEof, rfl⟩

/-- Messages in front of what was written are the first reports. -/
theorem sound_begins {sender : SenderTask} {epochs : List UInt64} {rest left : Bytes}
    {messages : List ControlMessage} (sound : Sound epochTx Known Steady sender epochs rest)
    (front : messages.flatMap encode ++ left = sender.written) :
    ∃ later, epochs.map .report = messages ++ later ∧ left ++ rest = later.flatMap encode := by
  have begins : reports epochs = messages.flatMap encode ++ (left ++ rest) := by
    rw [sound.whole, ← front, List.append_assoc]
  obtain ⟨later, split, behind⟩ := (splits_reports epochs).longest framing begins
  exact ⟨later, split, behind.trans (List.append_nil _)⟩

/-- What the receiver reads is a report. -/
theorem LinkSound.reads {message : ControlMessage} {unread : Bytes}
    (sound : LinkSound epochTx Known Acted Steady link)
    (read : readMessage link.unread = .ok (message, unread)) :
    ∃ epoch, message = .report epoch ∧ Known epoch ∧ epoch ≤ epochTx.value ∧
      LinkSound epochTx Known (fun other => Acted other ∨ other = epoch) Steady { link with unread } := by
  obtain ⟨⟨epochs, rest, sender⟩, delivered, handled, split, acted⟩ := sound
  rw [readMessage_sound _ _ _ read, ← List.append_assoc] at split
  have front : (handled ++ [message]).flatMap encode ++ (unread ++ link.sender.written.drop link.delivered) =
      link.sender.written := by
    rw [List.flatMap_append, List.flatMap_singleton, ← List.append_assoc, ← split, List.take_append_drop]
  obtain ⟨later, reported, -⟩ := sound_begins sender front
  have member : message ∈ epochs.map .report := by
    rw [reported]
    exact List.mem_append_left _ (List.mem_append_right _ List.mem_cons_self)
  obtain ⟨epoch, begun, rfl⟩ := List.mem_map.mp member
  refine ⟨epoch, rfl, sender.known epoch begun, sender.le_value epoch begun, ⟨epochs, rest, sender⟩, delivered,
    handled ++ [.report epoch], ?_, fun other among => ?_⟩
  · rw [List.flatMap_append, List.flatMap_singleton]
    exact split
  · rcases List.mem_append.mp among with old | last
    · exact Or.inl (acted other old)
    · exact Or.inr (ControlMessage.report.inj (List.mem_singleton.mp last))

variable {G MlsError : Type} [ExportSecret G MlsError] {log after : CommitLog G}

/-- A step of a connection either leaves the log or trims it at a known report. -/
theorem LinkSound.step {event : LinkEvent} (sound : LinkSound epochTx Known Acted Steady link)
    (known : Known epochTx.value) (steady : Steady → event ≠ .sender (.setShouldReport false))
    (moved : Link.Moved epochTx log link event after next) :
    (after = log ∧ LinkSound epochTx Known Acted Steady next) ∨
      ∃ epoch, Known epoch ∧ epoch ≤ epochTx.value ∧ after = log.trim epoch ∧
        LinkSound epochTx Known (fun other => Acted other ∨ other = epoch) Steady next := by
  obtain ⟨⟨epochs, rest, before⟩, delivered, handled, split, acted⟩ := sound
  cases moved with
  | spawnSender absent => exact Or.inl ⟨rfl, ⟨epochs, rest, before⟩, delivered, handled, split, acted⟩
  | @sender event sender spawned ran =>
      have grows := written_grows ran
      have allowed : Steady → event ≠ .setShouldReport false := fun always same =>
        steady always (congrArg LinkEvent.sender same)
      refine Or.inl ⟨rfl, before.step known allowed ran, delivered.trans grows.length_le, handled, ?_, acted⟩
      rw [take_of_begins grows delivered]
      exact split
  | @delivered count some room opened =>
      refine Or.inl ⟨rfl, ⟨epochs, rest, before⟩, room, handled, ?_, acted⟩
      change link.sender.written.take (link.delivered + count) = _ ++ (link.unread ++ _)
      rw [List.take_add, split, List.append_assoc]
  | closed => exact Or.inl ⟨rfl, ⟨epochs, rest, before⟩, delivered, handled, split, acted⟩
  | spawnReceiver absent => exact Or.inl ⟨rfl, ⟨epochs, rest, before⟩, delivered, handled, split, acted⟩
  | handled spawned read =>
      have sound : LinkSound epochTx Known Acted Steady link :=
        ⟨⟨epochs, rest, before⟩, delivered, handled, split, acted⟩
      obtain ⟨epoch, rfl, borrowed, within, behind⟩ := sound.reads read
      exact Or.inr ⟨epoch, borrowed, within, rfl, behind.sender, behind.delivered, behind.handled⟩
  | stopped spawned stuck final => exact Or.inl ⟨rfl, ⟨epochs, rest, before⟩, delivered, handled, split, acted⟩
  | aborted => exact Or.inl ⟨rfl, ⟨epochs, rest, before⟩, delivered, handled, split, acted⟩

end Link

/-! ### The system -/

/-- The catch-up system of a pipeline: every report ever borrowed stays in flight. -/
def catchUp {GA GB : Type} (pipeline : Pipeline GA GB) (reports : List Bytes) : CatchUp.System GA GB :=
  { alice := pipeline.alice, socket := pipeline.socket, bob := pipeline.bob.view,
    datagrams := pipeline.datagrams, reports }

/-- In `Ordered` runs no report outruns the sender of commits, so each one handled has
raised the checkpoint to it. -/
structure Follows {GA GB : Type} (Ordered Steady : Prop) (pipeline : Pipeline GA GB) (inFlight : List Bytes) :
    Prop where
  published : pipeline.bob.epochTx.value = pipeline.bob.localEpoch
  behind : pipeline.alice.checkpoint ≤ pipeline.bob.localEpoch
  links : ∀ link ∈ pipeline.links, LinkSound pipeline.bob.epochTx
    (fun epoch => encode (.report epoch) ∈ inFlight) (fun epoch => Ordered → epoch ≤ pipeline.alice.checkpoint)
    Steady link

/-- What a run may do. -/
def Allowed (Honest Steady : Prop) {GA GB : Type} (_ : Pipeline GA GB) (action : Action) : Prop :=
  (Honest → honest action) ∧ (Steady → steady action)

def CatchUpAllowed (Honest : Prop) {GA GB : Type} (system : CatchUp.System GA GB) (action : CatchUp.Action) :
    Prop :=
  Honest → CatchUp.honest system action

section Step
variable {GA GB EA EB : Type} [ExportSecret GA EA] [ExportSecret GB EB] {Honest Ordered Steady : Prop}
  {pipeline after : Pipeline GA GB} {inFlight : List Bytes}

theorem initial_follows (groupA : GA) (groupB : GB) :
    Follows Ordered Steady (initial groupA groupB) [] where
  published := rfl
  behind := UInt64.le_refl _
  links := fun _ absurd => by cases absurd

theorem follows_createCommit (follows : Follows Ordered Steady pipeline inFlight)
    (taken : step pipeline .createCommit = some after) :
    CatchUp.step (catchUp pipeline inFlight) .createCommit = some (catchUp after inFlight) ∧
      Follows Ordered Steady after inFlight := by
  cases Pipeline.moved_of_step taken with
  | @created commit alice made room =>
      have kept : alice.checkpoint = pipeline.alice.checkpoint := by
        rw [(CommitLog.createCommit_ok made).2]
      refine ⟨?_, follows.published, kept.trans_le follows.behind, fun link member => ?_⟩
      · simp only [CatchUp.step, catchUp, made, if_pos room]
      · have sound := follows.links link member
        rw [← kept] at sound
        exact sound

theorem follows_receive (follows : Follows Ordered Steady pipeline inFlight) (datagram : Bytes) :
    Follows Ordered Steady { pipeline with bob := pipeline.bob.receive datagram } inFlight := by
  obtain ⟨published, same | ⟨epoch, rises, sent⟩⟩ := receive_publishes follows.published datagram
  · have kept : pipeline.alice.checkpoint ≤ (pipeline.bob.receive datagram).localEpoch := by
      rw [← published, same, follows.published]
      exact follows.behind
    refine ⟨published, kept, fun link member => ?_⟩
    change LinkSound (pipeline.bob.receive datagram).epochTx _ _ _ _
    rw [same]
    exact follows.links link member
  · have raised : pipeline.alice.checkpoint ≤ (pipeline.bob.receive datagram).localEpoch := by
      rw [← published, sent]
      exact (follows.behind.trans_eq follows.published.symm).trans rises.le
    refine ⟨published, raised, fun link member => ?_⟩
    change LinkSound (pipeline.bob.receive datagram).epochTx _ _ _ _
    rw [sent]
    exact (follows.links link member).sendReplace rises

theorem catchUp_receive (pipeline : Pipeline GA GB) (inFlight : List Bytes) (datagram : Bytes) :
    { catchUp pipeline inFlight with bob := CatchUp.receive datagram pipeline.bob.view } =
      catchUp { pipeline with bob := pipeline.bob.receive datagram } inFlight := by
  rw [← view_receive]
  rfl

/-- A step of a connection is matched by putting the published epoch in flight, so that
it may be borrowed, and by receiving the report that is read. -/
theorem follows_link (order : Ordered → pipeline.bob.localEpoch ≤ pipeline.alice.currentEpoch)
    (follows : Follows Ordered Steady pipeline inFlight) {index : Nat} {event : LinkEvent}
    (permitted : Steady → steady (.link index event))
    (taken : step pipeline (.link index event) = some after) :
    ∃ more, Machine.Reachable CatchUp.step (CatchUpAllowed Honest) (catchUp pipeline inFlight)
      (catchUp after more) ∧ Follows Ordered Steady after more := by
  cases Pipeline.moved_of_step taken with
  | @linked _ _ link next alice found moved =>
      have begun : CatchUp.step (catchUp pipeline inFlight) .sendReport =
          some (catchUp pipeline (inFlight ++ [encode (.report pipeline.bob.epochTx.value)])) := rfl
      have sending : Machine.Reachable CatchUp.step (CatchUpAllowed Honest) (catchUp pipeline inFlight) _ :=
        .next .sendReport .start (fun _ => trivial) begun
      have wider : ∀ other ∈ pipeline.links, LinkSound pipeline.bob.epochTx
          (fun epoch => encode (.report epoch) ∈ inFlight ++ [encode (.report pipeline.bob.epochTx.value)])
          (fun epoch => Ordered → epoch ≤ pipeline.alice.checkpoint) Steady other := fun other member =>
        (follows.links other member).mono (fun _ old => List.mem_append_left _ old) fun _ acted => acted
      have flag : Steady → event ≠ .sender (.setShouldReport false) := by
        rintro always rfl
        exact permitted always
      rcases (wider link (List.mem_of_getElem? found)).step
        (List.mem_append_right _ List.mem_cons_self) flag moved with
        ⟨rfl, sound⟩ | ⟨epoch, borrowed, within, rfl, sound⟩
      · refine ⟨_, sending, follows.published, follows.behind, fun other member => ?_⟩
        rcases List.mem_or_eq_of_mem_set member with old | rfl
        · exact wider other old
        · exact sound
      · have trimmed := reportReceiverStep_report pipeline.alice epoch []
        rw [List.append_nil] at trimmed
        have received : CatchUp.step
            (catchUp pipeline (inFlight ++ [encode (.report pipeline.bob.epochTx.value)]))
            (.receiveReport (encode (.report epoch))) =
            some (catchUp
              { pipeline with alice := pipeline.alice.trim epoch, links := pipeline.links.set index next }
              (inFlight ++ [encode (.report pipeline.bob.epochTx.value)])) := by
          simp only [CatchUp.step, catchUp, if_pos borrowed, trimmed]
        have raised : pipeline.alice.checkpoint ≤ (pipeline.alice.trim epoch).checkpoint := le_max_left _ _
        have below : (pipeline.alice.trim epoch).checkpoint ≤ pipeline.bob.localEpoch :=
          max_le follows.behind ((min_le_left _ _).trans (within.trans_eq follows.published))
        refine ⟨_, sending.next (.receiveReport _) (fun _ => trivial) received, follows.published, below,
          fun other member => ?_⟩
        rcases List.mem_or_eq_of_mem_set member with old | rfl
        · exact (wider other old).mono (fun _ same => same) fun _ acted fair => (acted fair).trans raised
        · refine sound.mono (fun _ same => same) fun older acted fair => ?_
          rcases acted with before | rfl
          · exact (before fair).trans raised
          · -- The report does not outrun the sender's epoch, so it is not cut.
            have inside : older ≤ pipeline.alice.currentEpoch :=
              within.trans (follows.published.trans_le (order fair))
            exact le_max_of_le_right (le_min (le_refl _) inside)

theorem follows_step (order : Ordered → pipeline.bob.localEpoch ≤ pipeline.alice.currentEpoch)
    (follows : Follows Ordered Steady pipeline inFlight) {action : Action}
    (permitted : Allowed Honest Steady pipeline action) (taken : step pipeline action = some after) :
    ∃ more, Machine.Reachable CatchUp.step (CatchUpAllowed Honest) (catchUp pipeline inFlight)
      (catchUp after more) ∧ Follows Ordered Steady after more := by
  cases Pipeline.moved_of_step taken with
  | created made room =>
      obtain ⟨made, kept⟩ := follows_createCommit follows taken
      exact ⟨inFlight, Machine.Reachable.start.next .createCommit (fun _ => trivial) made, kept⟩
  | sent totalBudget sendTo =>
      refine ⟨inFlight, ?_, follows.published, follows.behind, follows.links⟩
      exact Machine.Reachable.start.next (.sendPreamble totalBudget sendTo) (fun _ => trivial) rfl
  | @delivered datagram sent =>
      refine ⟨inFlight, Machine.Reachable.start.next (.deliver datagram) (fun _ => trivial) ?_,
        follows_receive follows datagram⟩
      have arrives : datagram ∈ (catchUp pipeline inFlight).datagrams := sent
      rw [CatchUp.step, if_pos arrives, ← catchUp_receive]
      rfl
  | injected datagram =>
      refine ⟨inFlight, Machine.Reachable.start.next (.inject datagram) permitted.1 ?_,
        follows_receive follows datagram⟩
      rw [CatchUp.step, ← catchUp_receive]
      rfl
  | connected =>
      refine ⟨inFlight, .start, follows.published, follows.behind, fun link member => ?_⟩
      rcases List.mem_append.mp member with old | fresh
      · exact follows.links link old
      · obtain rfl := List.mem_singleton.mp fresh
        exact new_sound
  | linked found moved => exact follows_link order follows permitted.2 taken
  | dropped =>
      exact ⟨inFlight, .start, follows.published, follows.behind,
        fun link member => (follows.links link member).close⟩

/-- Every run is matched by one of the catch-up system, state for state. -/
theorem follows_of_run {groupA : GA} {groupB : GB} {final : Pipeline GA GB}
    (order : ∀ system, Machine.Reachable CatchUp.step (CatchUpAllowed Honest)
      (CatchUp.initial groupA groupB) system → Ordered → system.bob.localEpoch ≤ system.alice.currentEpoch)
    (run : Machine.Reachable step (Allowed Honest Steady) (initial groupA groupB) final) :
    ∃ inFlight, Machine.Reachable CatchUp.step (CatchUpAllowed Honest) (CatchUp.initial groupA groupB)
      (catchUp final inFlight) ∧ Follows Ordered Steady final inFlight := by
  induction run with
  | start => exact ⟨[], .start, initial_follows groupA groupB⟩
  | next action _ permitted taken ih =>
      obtain ⟨inFlight, path, follows⟩ := ih
      obtain ⟨more, further, kept⟩ := follows_step (order _ path) follows permitted taken
      exact ⟨more, path.trans further, kept⟩

end Step

end QuicMls.ReportRefinement
