import QuicMls.SessionRuns

/-! The handshake of one session and the agreement of two. While the exporter
answers, the state of the machine says how many keys were returned and which
slots are still full. -/
namespace QuicMls.Handshake
open BigEndian Groups Hkdf PacketKey KeySchedule Session SessionRuns

/-- `export_secret` never fails. -/
def NeverFails (G : Type) {MlsError : Type} [ExportSecret G MlsError] : Prop :=
  ∀ (group : G) (label context : Bytes) (len : Nat),
    ∃ secret, ExportSecret.exportSecret group label context len = .ok secret

section Handshake
variable {Params TransportError : Type} [TransportCodec Params TransportError] [HkdfSha256]
  {G MlsError : Type} [ExportSecret G MlsError]

theorem NeverFails.derive (answers : NeverFails G) (group : G) (level : String) (side : Side)
    (context : Bytes) : ∃ keys, deriveMlsKeys group level side context = .ok keys := by
  obtain ⟨clientSecret, client⟩ := answers group (Direction.clientToServer.label level) context 32
  obtain ⟨serverSecret, server⟩ := answers group (Direction.serverToClient.label level) context 32
  exact ⟨_, deriveMlsKeys_ok.mpr ⟨clientSecret, serverSecret, client, server, rfl⟩⟩

/-! ### The stages -/

/-- What was returned, and which slots are full, in each state. -/
def Stage (trace : Trace G Params) : Prop :=
  match trace.session.state with
  | .initial => trace.returned = []
  | .awaitingZeroRttKeys => trace.returned = [] ∧
      trace.session.pinnedZeroRttUpgradeKeys ≠ none ∧ trace.session.pinnedZeroRttKeys ≠ none
  | .confirmingZeroRttKeys => trace.returned.length = 1 ∧ trace.heard = true ∧
      trace.session.pinnedZeroRttKeys ≠ none
  | .done => trace.returned.length = 2 ∧ trace.heard = true

structure Staged (trace : Trace G Params) : Prop where
  stage : Stage trace
  heard : trace.session.peerParams ≠ none → trace.heard = true

omit [HkdfSha256] [ExportSecret G MlsError] in
theorem start_staged {side : Side} {localParams : Params} {session : MlsSession Params}
    (built : MlsSession.new side localParams = some session) :
    Staged (Trace.start session : Trace G Params) := by
  obtain ⟨_, state, peer, _⟩ := new_fields built
  constructor
  · simp [Stage, Trace.start, state]
  · intro absurd
    exact absurd.elim peer

theorem write_staged (answers : NeverFails G) {trace after : Trace G Params} {group : G}
    (staged : Staged trace) (called : trace.call group .writeHandshake = some after) :
    Staged after := by
  obtain ⟨stage, heard⟩ := staged
  rw [Stage] at stage
  rcases writeHandshake_cases group trace.session with ⟨state, written⟩ | ⟨idle, written⟩ |
    ⟨state, peer, written⟩ | ⟨state, written⟩
  · obtain ⟨keys, derived⟩ := answers.derive group "0-rtt" trace.session.side []
    simp only [state] at stage
    simp only [Trace.call, written, Trace.give, derived, Option.some.injEq] at called
    rw [← called]
    exact ⟨⟨stage, by simp [Except.toOption], by simp [Except.toOption]⟩, heard⟩
  · simp only [Trace.call, written, Trace.give, Option.some.injEq] at called
    rw [← called]
    exact ⟨stage, heard⟩
  · simp only [state] at stage
    obtain ⟨none, upgrade, zeroRtt⟩ := stage
    -- A full slot is what makes this call return keys.
    obtain ⟨keys, full⟩ := Option.ne_none_iff_exists'.mp upgrade
    simp only [Trace.call, written, full, Trace.give, Option.some.injEq] at called
    rw [← called]
    exact ⟨⟨by simp [none], heard peer, zeroRtt⟩, heard⟩
  · simp only [state] at stage
    obtain ⟨one, before, zeroRtt⟩ := stage
    obtain ⟨keys, full⟩ := Option.ne_none_iff_exists'.mp zeroRtt
    simp only [Trace.call, written, full, Trace.give, Option.some.injEq] at called
    rw [← called]
    exact ⟨⟨by simp [one], before⟩, heard⟩

omit [HkdfSha256] [ExportSecret G MlsError] in
/-- A stage asks nothing of the peer's parameters, the counter or the packet keys. -/
theorem Stage.frame {trace : Trace G Params} (stage : Stage trace) (peerParams : Option Params)
    (keyUpdateGeneration : UInt64) (heard : Bool) (handed : List (Handed G))
    (updates : List (G × KeyPair Aes128GcmPacketKey)) :
    Stage { trace with
      session := { trace.session with peerParams, keyUpdateGeneration },
      heard := trace.heard || heard, handed, updates } := by
  rw [Stage] at stage ⊢
  cases state : trace.session.state with
  | initial =>
      simp only [state] at stage
      exact stage
  | awaitingZeroRttKeys =>
      simp only [state] at stage
      exact stage
  | confirmingZeroRttKeys =>
      simp only [state] at stage
      obtain ⟨one, before, zeroRtt⟩ := stage
      exact ⟨one, by simp [before], zeroRtt⟩
  | done =>
      simp only [state] at stage
      obtain ⟨two, before⟩ := stage
      exact ⟨two, by simp [before]⟩

theorem call_staged (answers : NeverFails G) {trace after : Trace G Params} {group : G} {call : Call}
    (staged : Staged trace) (called : trace.call group call = some after) : Staged after := by
  cases call with
  | writeHandshake => exact write_staged answers staged called
  | readHandshake buf =>
      obtain ⟨peerParams, heard, rfl, genuine⟩ := read_call called
      constructor
      · exact staged.stage.frame _ _ _ _ _
      · intro kept
        rcases genuine kept with before | now
        · simp [staged.heard before]
        · simp [now]
  | earlyCrypto =>
      obtain ⟨fresh, rfl, _⟩ := early_call called
      exact ⟨staged.stage, staged.heard⟩
  | next1rttKeys =>
      obtain ⟨keys, _, rfl⟩ := update_call called
      exact ⟨staged.stage, staged.heard⟩

/-! ### What a session shows -/

/-- At most two keys, none before the peer was heard, the second one ends the
handshake, and all are the export of the group at the first `write_handshake`. -/
structure Shows (side : Side) (trace : Trace G Params) : Prop where
  atMostTwo : trace.returned.length ≤ 2
  heardFirst : trace.returned ≠ [] → trace.heard = true
  handshaking : trace.session.isHandshaking = true ↔ trace.returned.length < 2
  pinned : ∀ keys ∈ trace.returned, trace.Pins side keys

theorem Staged.shows {side : Side} {trace : Trace G Params} (staged : Staged trace)
    (sound : trace.Sound side) : Shows side trace := by
  have stage := staged.stage
  rw [Stage] at stage
  cases state : trace.session.state with
  | initial =>
      simp only [state] at stage
      exact ⟨by simp [stage], by simp [stage], by simp [MlsSession.isHandshaking, state, stage],
        sound.returned⟩
  | awaitingZeroRttKeys =>
      simp only [state] at stage
      obtain ⟨none, _⟩ := stage
      exact ⟨by simp [none], by simp [none], by simp [MlsSession.isHandshaking, state, none],
        sound.returned⟩
  | confirmingZeroRttKeys =>
      simp only [state] at stage
      obtain ⟨one, heard, _⟩ := stage
      exact ⟨by omega, fun _ => heard, by simp [MlsSession.isHandshaking, state, one], sound.returned⟩
  | done =>
      simp only [state] at stage
      obtain ⟨two, heard⟩ := stage
      exact ⟨by omega, fun _ => heard, by simp [MlsSession.isHandshaking, state, two], sound.returned⟩

/-- A session that is done returns no more keys. -/
theorem call_done {trace after : Trace G Params} {group : G} {call : Call}
    (done : trace.session.isHandshaking = false) (called : trace.call group call = some after) :
    after.session.isHandshaking = false ∧ after.returned = trace.returned := by
  -- Only `write_handshake` moves the state, and it stops here.
  have state : trace.session.state = .done := by simpa [MlsSession.isHandshaking] using done
  cases call with
  | writeHandshake =>
      have written : trace.session.writeHandshake group = (none, [], trace.session) := by
        simp [MlsSession.writeHandshake, state]
      simp only [Trace.call, written, Trace.give, Option.some.injEq] at called
      rw [← called]
      exact ⟨done, rfl⟩
  | readHandshake buf =>
      obtain ⟨peerParams, heard, rfl, _⟩ := read_call called
      exact ⟨done, rfl⟩
  | earlyCrypto =>
      obtain ⟨fresh, rfl, _⟩ := early_call called
      exact ⟨done, rfl⟩
  | next1rttKeys =>
      obtain ⟨keys, _, rfl⟩ := update_call called
      exact ⟨done, rfl⟩

theorem shows_of_run (answers : NeverFails G) {side : Side} {group : G} {endpoint : Endpoint G Params}
    (run : endpoint.Reached side group) : ∀ trace ∈ endpoint.sessions, Shows side trace := by
  intro trace member
  have staged : Staged trace := by
    apply run.trace_invariant Staged _ _ trace member
    · intro localParams session built
      exact start_staged built
    · intro group before after call staged called
      exact call_staged answers staged called
  exact staged.shows (run.sound trace member)

/-- A finished handshake stays finished, whatever happens next. -/
theorem finished_for_good {side : Side} {endpoint later : Endpoint G Params}
    (run : Machine.Reachable (Endpoint.step side) (fun _ _ => True) endpoint later) {index : Nat}
    {trace : Trace G Params} (found : endpoint.sessions[index]? = some trace)
    (done : trace.session.isHandshaking = false) :
    ∃ after, later.sessions[index]? = some after ∧ after.session.isHandshaking = false ∧
      after.returned = trace.returned := by
  apply later_session run
    (fun after : Trace G Params => after.session.isHandshaking = false ∧ after.returned = trace.returned)
    _ found ⟨done, rfl⟩
  intro group before after call good called
  obtain ⟨done, returned⟩ := call_done good.1 called
  exact ⟨done, by rw [returned, good.2]⟩

/-- What every session of an endpoint shows, and that a finished one stays so. -/
structure Handshakes (side : Side) (endpoint : Endpoint G Params) : Prop where
  shows : ∀ trace ∈ endpoint.sessions, Shows side trace
  finished : ∀ (later : Endpoint G Params) (index : Nat) (trace : Trace G Params),
    Machine.Reachable (Endpoint.step side) (fun _ _ => True) endpoint later →
    endpoint.sessions[index]? = some trace → trace.session.isHandshaking = false →
    ∃ after, later.sessions[index]? = some after ∧ after.session.isHandshaking = false ∧
      after.returned = trace.returned

theorem handshakes_of_run (answers : NeverFails G) {side : Side} {group : G} {endpoint : Endpoint G Params}
    (run : endpoint.Reached side group) : Handshakes side endpoint := by
  constructor
  · exact shows_of_run answers run
  · intro later index trace onwards found done
    exact finished_for_good onwards found done

end Handshake

/-! ### Two sides -/

section Agreement
variable {Params TransportError : Type} [TransportCodec Params TransportError] [HkdfSha256]
  {GA EA : Type} [ExportSecret GA EA] {GB EB : Type} [ExportSecret GB EB]

/-- Keys pinned at groups that export alike fit together. -/
theorem pins_crossed {client : Trace GA Params} {server : Trace GB Params} {groupA : GA} {groupB : GB}
    (clientAt : client.pinnedAt = some groupA) (serverAt : server.pinnedAt = some groupB)
    (same : SameExports groupA groupB "0-rtt" []) {clientKeys serverKeys : Keys}
    (clientPins : client.Pins .client clientKeys) (serverPins : server.Pins .server serverKeys) :
    Crossed clientKeys serverKeys := by
  obtain ⟨left, leftAt, clientDerived⟩ := clientPins
  obtain ⟨right, rightAt, serverDerived⟩ := serverPins
  obtain rfl := Option.some.inj (leftAt.symm.trans clientAt)
  obtain rfl := Option.some.inj (rightAt.symm.trans serverAt)
  exact crossed_derived same clientDerived serverDerived

/-- Every session of every run of either side keeps the handshake, for good once
it is finished, and two sessions that start on equal exports return keys that fit
together, whatever is committed in between. -/
theorem handshake_agreement (clientAnswers : NeverFails GA) (serverAnswers : NeverFails GB) {groupA : GA}
    {groupB : GB} {client : Endpoint GA Params} {server : Endpoint GB Params}
    (clientRun : client.Reached .client groupA) (serverRun : server.Reached .server groupB) :
    Handshakes .client client ∧ Handshakes .server server ∧
    ∀ one ∈ client.sessions, ∀ two ∈ server.sessions, ∀ pinnedA pinnedB,
      one.pinnedAt = some pinnedA → two.pinnedAt = some pinnedB → SameExports pinnedA pinnedB "0-rtt" [] →
      ∀ (index : Nat) clientKeys serverKeys, one.returned[index]? = some clientKeys →
        two.returned[index]? = some serverKeys → Crossed clientKeys serverKeys := by
  have clientShows := handshakes_of_run clientAnswers clientRun
  have serverShows := handshakes_of_run serverAnswers serverRun
  refine ⟨clientShows, serverShows, ?_⟩
  intro one ours two theirs pinnedA pinnedB clientAt serverAt same index clientKeys serverKeys
    clientReturned serverReturned
  apply pins_crossed clientAt serverAt same
  · exact (clientShows.shows one ours).pinned clientKeys (List.mem_of_getElem? clientReturned)
  · exact (serverShows.shows two theirs).pinned serverKeys (List.mem_of_getElem? serverReturned)

end Agreement

/-! ### A handshake with a commit in the middle -/

section Example
attribute [local instance] folded

theorem counter_never_fails : NeverFails CounterGroup := fun _ _ _ _ => ⟨_, rfl⟩

def clientEvents : List (Event RawParams) :=
  [.connect { bytes := [1] }, .call 0 .writeHandshake, .createCommit, .call 0 (.readHandshake [0xFF]),
    .call 0 .writeHandshake, .call 0 (.readHandshake [2]), .call 0 .writeHandshake, .call 0 .writeHandshake]

def serverEvents : List (Event RawParams) :=
  [.connect { bytes := [2] }, .call 0 .writeHandshake, .call 0 (.readHandshake [1]),
    .call 0 .writeHandshake, .call 0 .writeHandshake]

theorem exchange_facts (side : Side) (events : List (Event RawParams))
    (facts : (exchange side events).any (fun endpoint =>
      endpoint.sessions.any fun trace =>
        trace.pinnedAt = some CounterGroup.fresh ∧ trace.returned.length = 2) = true) :
    ∃ endpoint : Endpoint CounterGroup RawParams, endpoint.Reached side CounterGroup.fresh ∧
      ∃ trace ∈ endpoint.sessions, trace.pinnedAt = some CounterGroup.fresh ∧
        ∃ keys, trace.returned[1]? = some keys := by
  rw [Option.any_eq_true_iff_get] at facts
  obtain ⟨ran, holds⟩ := facts
  rw [List.any_eq_true] at holds
  obtain ⟨trace, member, here⟩ := holds
  obtain ⟨pinned, two⟩ := of_decide_eq_true here
  exact ⟨_, exchange_reached (Option.some_get ran).symm, trace, member, pinned, trace.returned[1],
    List.getElem?_eq_getElem _⟩

theorem handshake_agreement_across_commit :
    ∃ client server : Endpoint CounterGroup RawParams, client.Reached .client CounterGroup.fresh ∧
      server.Reached .server CounterGroup.fresh ∧
      ∃ one ∈ client.sessions, ∃ two ∈ server.sessions, ∃ clientKeys serverKeys,
        one.returned[1]? = some clientKeys ∧ two.returned[1]? = some serverKeys ∧
        Crossed clientKeys serverKeys := by
  obtain ⟨client, clientRun, one, ours, clientAt, clientKeys, clientReturned⟩ :=
    exchange_facts .client clientEvents (by decide +kernel)
  obtain ⟨server, serverRun, two, theirs, serverAt, serverKeys, serverReturned⟩ :=
    exchange_facts .server serverEvents (by decide +kernel)
  refine ⟨client, server, clientRun, serverRun, one, ours, two, theirs, clientKeys, serverKeys,
    clientReturned, serverReturned, ?_⟩
  have same : SameExports CounterGroup.fresh CounterGroup.fresh "0-rtt" [] := fun _ _ => Iff.rfl
  exact (handshake_agreement counter_never_fails counter_never_fails clientRun serverRun).2.2 one ours two
    theirs _ _ clientAt serverAt same 1 clientKeys serverKeys clientReturned serverReturned

end Example

end QuicMls.Handshake
