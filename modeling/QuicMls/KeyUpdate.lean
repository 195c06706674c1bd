import QuicMls.CatchUp
import QuicMls.Separation

/-! Key updates of two connected parties. Each side derives its next keys from
the epoch its own group is in, and what moves the receiver's group is the lossy
preamble channel, not the key phase of the packets. -/
namespace QuicMls.KeyUpdate
open BigEndian Groups Hkdf PacketKey KeySchedule Session SessionRuns Separation

/-- The catch-up link with one session on each side of it. -/
structure Parties (GA GB Params : Type) where
  link : CatchUp.System GA GB
  client : Trace (CommitLog GA) Params
  server : Trace GB Params

inductive Move where
  | link (action : CatchUp.Action)
  | client (call : Call)
  | server (call : Call)

def start {GA GB Params : Type} (groupA : GA) (groupB : GB) (client server : MlsSession Params) :
    Parties GA GB Params :=
  { link := CatchUp.initial groupA groupB, client := Trace.start client, server := Trace.start server }

section Parties
variable {Params TransportError : Type} [TransportCodec Params TransportError] [HkdfSha256]

/-- The sessions share their group with the link: the client holds the sender's
log, the server the receiver's group. -/
def step {GA EA GB EB : Type} [ExportSecret GA EA] [ExportSecret GB EB] (parties : Parties GA GB Params) :
    Move → Option (Parties GA GB Params)
  | .link action => (CatchUp.step parties.link action).map fun link => { parties with link }
  | .client call => (parties.client.call parties.link.alice call).map fun client => { parties with client }
  | .server call => (parties.server.call parties.link.bob.group call).map fun server => { parties with server }

/-! ### Both traces stay sound -/

structure Kept {GA EA GB EB : Type} [ExportSecret GA EA] [ExportSecret GB EB]
    (parties : Parties GA GB Params) : Prop where
  clientSound : parties.client.Sound .client
  serverSound : parties.server.Sound .server
  clientCounted : parties.client.Counted .client
  serverCounted : parties.server.Counted .server

theorem kept_of_run {GA EA GB EB : Type} [ExportSecret GA EA] [ExportSecret GB EB] {groupA : GA}
    {groupB : GB} {clientParams serverParams : Params} {client server : MlsSession Params}
    (clientBuilt : MlsSession.new .client clientParams = some client)
    (serverBuilt : MlsSession.new .server serverParams = some server) {final : Parties GA GB Params}
    (run : Machine.Reachable step (fun _ _ => True) (start groupA groupB client server) final) :
    Kept final := by
  apply run.invariant
  · exact ⟨start_sound clientBuilt, start_sound serverBuilt, start_counted clientBuilt,
      start_counted serverBuilt⟩
  · intro before move after kept _ taken
    cases move with
    | link action =>
        simp only [step, Option.map_eq_some_iff] at taken
        obtain ⟨link, _, rfl⟩ := taken
        exact ⟨kept.clientSound, kept.serverSound, kept.clientCounted, kept.serverCounted⟩
    | client call =>
        simp only [step, Option.map_eq_some_iff] at taken
        obtain ⟨client, called, rfl⟩ := taken
        exact ⟨call_sound kept.clientSound called, kept.serverSound,
          call_counted kept.clientCounted called, kept.serverCounted⟩
    | server call =>
        simp only [step, Option.map_eq_some_iff] at taken
        obtain ⟨server, called, rfl⟩ := taken
        exact ⟨kept.clientSound, call_sound kept.serverSound called, kept.clientCounted,
          call_counted kept.serverCounted called⟩

/-- The keys of one direction of the updates with one number. -/
theorem update_key_eq_iff {G E H F Epoch : Type} [ExportSecret G E] [ExportSecret H F]
    {epochOf : G → Epoch} {epochOf' : H → Epoch} {ours : Trace G Params} {theirs : Trace H Params}
    {side other : Side} (oursSound : ours.Sound side) (theirsSound : theirs.Sound other)
    (separates : Separates (answers epochOf ours.handed ∪ answers epochOf' theirs.handed)) {one : Handed G}
    {two : Handed H} (first : one ∈ ours.handed) (second : two ∈ theirs.handed)
    (oneUpdated : one.role = .update) (twoUpdated : two.role = .update)
    (generation : one.generation = two.generation) (direction : one.direction = two.direction) :
    one.key = two.key ↔ epochOf one.origin = epochOf' two.origin := by
  have context : one.context = two.context :=
    context_eq_iff.mpr (Or.inr ⟨oneUpdated, twoUpdated, generation⟩)
  obtain ⟨_, origins⟩ := derived_keys_eq_iff separates first second (oursSound.derived one first)
    (theirsSound.derived two second)
  rw [origins]
  constructor
  · rintro ⟨epoch, _⟩
    exact epoch
  · intro epoch
    exact ⟨epoch, direction, context⟩

end Parties

section Agreement
variable {Params TransportError : Type} [TransportCodec Params TransportError] [HkdfSha256]
  {GA MA EA : Type} [MlsGroup GA MA EA] {GB MB EB : Type} [MlsGroup GB MB EB]

/-- In any run, whatever the preamble channel loses or delays, the pairs of one
generation match exactly when both groups were in one epoch at the two calls. -/
theorem key_update_agrees_iff {groupA : GA} {groupB : GB} {clientParams serverParams : Params}
    {client server : MlsSession Params} (clientBuilt : MlsSession.new .client clientParams = some client)
    (serverBuilt : MlsSession.new .server serverParams = some server) {final : Parties GA GB Params}
    (run : Machine.Reachable step (fun _ _ => True) (start groupA groupB client server) final)
    (separates : Separates
      (answers (fun log : CommitLog GA => MlsGroup.currentEpoch log.inner) final.client.handed ∪
        answers (MlsGroup.currentEpoch (G := GB)) final.server.handed))
    {generation : Nat} {alice : CommitLog GA × KeyPair Aes128GcmPacketKey}
    {bob : GB × KeyPair Aes128GcmPacketKey} (aliceCall : final.client.updates[generation]? = some alice)
    (bobCall : final.server.updates[generation]? = some bob) :
    (alice.2.localKey = bob.2.remoteKey ∧ alice.2.remoteKey = bob.2.localKey) ↔
      MlsGroup.currentEpoch alice.1.inner = MlsGroup.currentEpoch bob.1 := by
  have kept := kept_of_run clientBuilt serverBuilt run
  have ours := kept.clientCounted.handed generation alice aliceCall
  have theirs := kept.serverCounted.handed generation bob bobCall
  -- Local keys head each pair; what one side sends the other receives.
  have sent := update_key_eq_iff kept.clientSound kept.serverSound separates
    (ours List.mem_cons_self) (theirs (List.mem_cons_of_mem _ List.mem_cons_self)) rfl rfl rfl rfl
  have received := update_key_eq_iff kept.clientSound kept.serverSound separates
    (ours (List.mem_cons_of_mem _ List.mem_cons_self)) (theirs List.mem_cons_self) rfl rfl rfl rfl
  constructor
  · rintro ⟨key, _⟩
    exact sent.mp key
  · intro epoch
    exact ⟨sent.mpr epoch, received.mpr epoch⟩

end Agreement

/-! ### A rekey with and without the preamble -/

section Example
attribute [local instance] folded

theorem client_built : (MlsSession.new .client ({ bytes := [1] } : RawParams)).isSome = true := by
  decide +kernel

def clientSession : MlsSession RawParams := (MlsSession.new .client { bytes := [1] }).get client_built

theorem server_built : (MlsSession.new .server ({ bytes := [2] } : RawParams)).isSome = true := by
  decide +kernel

def serverSession : MlsSession RawParams := (MlsSession.new .server { bytes := [2] }).get server_built

/-- Both sides finish the handshake and install the first keys. -/
def connected : List Move :=
  [.client .writeHandshake, .server .writeHandshake, .client (.readHandshake [2]),
    .server (.readHandshake [1]), .client .writeHandshake, .client .writeHandshake,
    .server .writeHandshake, .server .writeHandshake, .client .next1rttKeys, .server .next1rttKeys,
    .link .createCommit, .link (.sendPreamble 100 (fun _ => .ok ()))]

/-- The two updates that follow, with `between` happening first. -/
def rekeyed (between : List Move) : Option (Parties CounterGroup CounterGroup RawParams) :=
  Machine.run step (start CounterGroup.fresh CounterGroup.fresh clientSession serverSession)
    (connected ++ between ++ [.client .next1rttKeys, .server .next1rttKeys])

def delivery : List Move := [.link (.deliver (Preamble.datagramOf [(1, CounterGroup.commitOf 0)]))]

theorem delivered_runs : (rekeyed delivery).isSome = true := by decide +kernel

theorem lost_runs : (rekeyed []).isSome = true := by decide +kernel

def delivered : Parties CounterGroup CounterGroup RawParams := (rekeyed delivery).get delivered_runs

def lost : Parties CounterGroup CounterGroup RawParams := (rekeyed []).get lost_runs

theorem rekeyed_reached {between : List Move} {final : Parties CounterGroup CounterGroup RawParams}
    (ran : rekeyed between = some final) : Machine.Reachable step (fun _ _ => True)
      (start CounterGroup.fresh CounterGroup.fresh clientSession serverSession) final :=
  Machine.reachable_of_run _ _ (fun _ _ _ => trivial) ran

/-- Everything the exporter answered to both parties. -/
def answered (parties : Parties CounterGroup CounterGroup RawParams) : List (Answer UInt64) :=
  parties.client.handed.map (counterAnswer CommitLog.inner) ++ parties.server.handed.map (counterAnswer id)

def asked (parties : Parties CounterGroup CounterGroup RawParams) : Set (Answer UInt64) :=
  answers (fun log : CommitLog CounterGroup => MlsGroup.currentEpoch log.inner) parties.client.handed ∪
    answers (MlsGroup.currentEpoch (G := CounterGroup)) parties.server.handed

def Apart (parties : Parties CounterGroup CounterGroup RawParams) : Prop := Separates (asked parties)

theorem answered_all (parties : Parties CounterGroup CounterGroup RawParams) :
    ∀ answer ∈ asked parties, answer ∈ answered parties := by
  rintro answer (ours | theirs)
  · exact List.mem_append_left _ (counter_answers (fun _ _ _ _ => rfl) _ answer ours)
  · exact List.mem_append_right _ (counter_answers (fun _ _ _ _ => rfl) _ answer theirs)

theorem delivered_apart : Apart delivered :=
  separates_of_list (answered_all _) (by decide +kernel) (by decide +kernel)

theorem lost_apart : Apart lost :=
  separates_of_list (answered_all _) (by decide +kernel) (by decide +kernel)

theorem two_updates : 1 < delivered.client.updates.length ∧ 1 < delivered.server.updates.length ∧
    1 < lost.client.updates.length ∧ 1 < lost.server.updates.length := by
  decide +kernel

/-- With the preamble in time the second pairs match. -/
theorem key_update_agrees_delivered :
    ∃ alice bob, delivered.client.updates[1]? = some alice ∧ delivered.server.updates[1]? = some bob ∧
      alice.2.localKey = bob.2.remoteKey ∧ alice.2.remoteKey = bob.2.localKey := by
  have aliceCall := List.getElem?_eq_getElem two_updates.1
  have bobCall := List.getElem?_eq_getElem two_updates.2.1
  refine ⟨_, _, aliceCall, bobCall, ?_⟩
  exact (key_update_agrees_iff (Option.some_get client_built).symm (Option.some_get server_built).symm
    (rekeyed_reached (Option.some_get delivered_runs).symm) delivered_apart aliceCall bobCall).mpr
      (by decide +kernel)

/-- The handshake is over on both sides, pinned in one epoch; the preamble of the
commit is lost and the second pairs do not match. -/
theorem lost_preamble_splits_keys :
    ∃ final : Parties CounterGroup CounterGroup RawParams, Machine.Reachable step (fun _ _ => True)
      (start CounterGroup.fresh CounterGroup.fresh clientSession serverSession) final ∧ Apart final ∧
      final.client.session.isHandshaking = false ∧ final.server.session.isHandshaking = false ∧
      (final.client.pinnedAt.map fun log => log.inner.epoch) = final.server.pinnedAt.map (·.epoch) ∧
      ∃ alice bob, final.client.updates[1]? = some alice ∧ final.server.updates[1]? = some bob ∧
        ¬ (alice.2.localKey = bob.2.remoteKey ∧ alice.2.remoteKey = bob.2.localKey) := by
  have aliceCall := List.getElem?_eq_getElem two_updates.2.2.1
  have bobCall := List.getElem?_eq_getElem two_updates.2.2.2
  refine ⟨lost, rekeyed_reached (Option.some_get lost_runs).symm, lost_apart, by decide +kernel,
    by decide +kernel, by decide +kernel, _, _, aliceCall, bobCall, ?_⟩
  decide +kernel

end Example

end QuicMls.KeyUpdate
