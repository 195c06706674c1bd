import QuicMls.Convergence
import QuicMls.Handshake
import QuicMls.KeyUpdate
import QuicMls.PacketProtection

/-! A contact after a blackout: once the receiver of commits has caught up, two fresh
sessions hold each other's keys, and what one side seals at any level passes the
preamble socket and is opened by the other. -/
namespace QuicMls.Contact
open BigEndian Groups Hkdf AesGcm PacketKey HeaderKey KeySchedule Preamble Session SessionRuns PacketProtection
open Recovery KeyUpdate Convergence

/-! ### Packets between two sets of keys -/

/-- Every packet `sender` seals, with the fixed or the long-header bit and its packet
number at the end of its header, goes past the preamble socket and is opened. -/
def Opens [Aes128] [Aes128Gcm] (sender receiver : Keys) : Prop :=
  ∀ (packet : UInt64) (pnOffset : Nat) (header payload : Bytes), 1 ≤ pnOffset →
    header.length = pnOffset + decodeLen (header.headD 0) →
    pnOffset + 20 ≤ header.length + payload.length + 16 →
    (header.headD 0 &&& 0x80 ≠ 0 ∨ header.headD 0 &&& 0x40 ≠ 0) →
    ∃ wire, sealPacket sender packet pnOffset header payload = some wire ∧ parsePreamble wire = none ∧
      openPacket receiver packet pnOffset wire = some (.ok (header, payload))

section Opens
variable [Aes128] [Aes128Gcm] [OpensSealed] {sender receiver : Keys}

theorem opens_of_same (sameHeader : receiver.header.remoteKey = sender.header.localKey)
    (samePacket : receiver.packet.remoteKey = sender.packet.localKey) : Opens sender receiver := by
  intro packet pnOffset header payload behind ends room fixedBits
  obtain ⟨body, wire, -, sealed, -, -, opened⟩ := open_seal sameHeader samePacket packet behind ends room
  refine ⟨wire, sealed, ?_, opened⟩
  cases header with
  | nil => simp [decodeLen] at ends
  | cons first rest =>
      rw [sealPacket_eq] at sealed
      exact parsePreamble_encrypt behind fixedBits sealed

theorem opens_of_crossed {client server : Keys} (crossed : Crossed client server) :
    Opens client server ∧ Opens server client :=
  ⟨opens_of_same crossed.headerSent.symm crossed.packetSent.symm,
    opens_of_same crossed.headerReceived crossed.packetReceived⟩

end Opens

/-- The keys of 0-RTT go one way, so one pair is all a side has. -/
def zeroRtt (pair : Aes128EcbHeaderKey × Aes128GcmPacketKey) : Keys :=
  { header := { localKey := pair.1, remoteKey := pair.1 },
    packet := { localKey := pair.2, remoteKey := pair.2 } }

/-- After a key update the packets are sealed with new keys under the old header keys. -/
def updated (keys : Keys) (pair : KeyPair Aes128GcmPacketKey) : Keys := { keys with packet := pair }

/-! ### The Initial level -/

/-- `Hkdf::<Sha256>::new(Some(salt), ikm)`, which keeps the extracted key. -/
class HkdfExtract where
  extract : Bytes → Bytes → Vector UInt8 32

def INITIAL_SALT : Vector UInt8 20 :=
  #v[0x38, 0x76, 0x2C, 0xF7, 0xF5, 0x59, 0x34, 0xB3, 0x4D, 0x17, 0x9A, 0xE6, 0xA4, 0xC8, 0x0C, 0xAD, 0xCC, 0xBB,
    0x7F, 0x0A]

section Initial
variable [HkdfSha256] [HkdfExtract]

def deriveInitialSecrets (dstCid : Bytes) : Vector UInt8 32 × Vector UInt8 32 :=
  let hkdf := (HkdfExtract.extract INITIAL_SALT.toList dstCid).toList
  let clientSecret := HkdfSha256.expand hkdf (hkdfLabelInfo "client in" [] 32) 32
  let serverSecret := HkdfSha256.expand hkdf (hkdfLabelInfo "server in" [] 32) 32
  (clientSecret, serverSecret)

def deriveInitialKeys (dstCid : Bytes) (side : Side) : Keys :=
  let (clientSecret, serverSecret) := deriveInitialSecrets dstCid
  deriveDirectionalKeys (.ofHash clientSecret) (.ofHash serverSecret) side

/-- `MlsSession::initial_keys`: of the connection id alone, as every observer knows it. -/
def initialKeys {Params : Type} (_ : MlsSession Params) (dstCid : Bytes) (side : Side) : Keys :=
  deriveInitialKeys dstCid side

/-- `MlsServerConfig::initial_keys`, for a packet that no session belongs to yet. -/
def serverInitialKeys (dstCid : Bytes) : Keys := deriveInitialKeys dstCid .server

end Initial

/-! ### Sessions over groups that export alike -/

section Sessions
variable {Params TransportError : Type} [TransportCodec Params TransportError] [HkdfSha256]
  {G EG H EH : Type} [ExportSecret G EG] [ExportSecret H EH] {groupA : G} {groupB : H}

/-- The two sides take the same pair for 0-RTT. -/
theorem early_same (same : SameExports groupA groupB "0-rtt" []) {client server : MlsSession Params}
    (clientSide : client.side = .client) (serverSide : server.side = .server)
    {ours theirs : Aes128EcbHeaderKey × Aes128GcmPacketKey} (clientKeys : client.earlyCrypto groupA = some ours)
    (serverKeys : server.earlyCrypto groupB = some theirs) : ours = theirs := by
  rw [MlsSession.earlyCrypto, clientSide] at clientKeys
  rw [MlsSession.earlyCrypto, serverSide] at serverKeys
  cases clientDerived : deriveMlsKeys groupA "0-rtt" .client [] with
  | error e => simp [clientDerived] at clientKeys
  | ok keysA =>
      cases serverDerived : deriveMlsKeys groupB "0-rtt" .server [] with
      | error e => simp [serverDerived] at serverKeys
      | ok keysB =>
          have crossed := crossed_derived same clientDerived serverDerived
          simp only [clientDerived, Option.some.injEq] at clientKeys
          simp only [serverDerived, Option.some.injEq] at serverKeys
          rw [← clientKeys, ← serverKeys, crossed.headerSent, crossed.packetSent]

theorem directionKey_same {level : String} {context : Bytes} (same : SameExports groupA groupB level context)
    {direction : Direction} {one two : Aes128GcmPacketKey}
    (ours : directionKey groupA level direction context = .ok one)
    (theirs : directionKey groupB level direction context = .ok two) : one = two := by
  rw [directionKey] at ours theirs
  cases exported : ExportSecret.exportSecret groupA (direction.label level) context 32 with
  | error e =>
      rw [exported] at ours
      cases ours
  | ok secret =>
      rw [exported] at ours
      rw [(same _ _).mp exported] at theirs
      exact (Except.ok.inj ours).symm.trans (Except.ok.inj theirs)

/-- What one side sends after its update of some number the other receives after its own. -/
theorem update_same {client : Trace G Params} {server : Trace H Params} (clientSound : client.Sound .client)
    (serverSound : server.Sound .server) (clientCounted : client.Counted .client)
    (serverCounted : server.Counted .server) {generation : Nat} {ours : G × KeyPair Aes128GcmPacketKey}
    {theirs : H × KeyPair Aes128GcmPacketKey} (clientCall : client.updates[generation]? = some ours)
    (serverCall : server.updates[generation]? = some theirs)
    (same : SameExports ours.1 theirs.1 "0-rtt" (wordToBe (UInt64.ofNat (generation + 1)))) :
    ours.2.localKey = theirs.2.remoteKey ∧ ours.2.remoteKey = theirs.2.localKey := by
  have mine := clientCounted.handed generation ours clientCall
  have yours := serverCounted.handed generation theirs serverCall
  constructor
  · exact directionKey_same same (clientSound.derived _ (mine List.mem_cons_self))
      (serverSound.derived _ (yours (List.mem_cons_of_mem _ List.mem_cons_self)))
  · exact directionKey_same same (clientSound.derived _ (mine (List.mem_cons_of_mem _ List.mem_cons_self)))
      (serverSound.derived _ (yours List.mem_cons_self))

/-- Only the first `write_handshake` pins a group. -/
theorem call_pinned {trace after : Trace G Params} {group : G} {call : Call}
    (called : trace.call group call = some after) :
    after.pinnedAt = trace.pinnedAt ∨ (trace.pinnedAt = none ∧ after.pinnedAt = some group) := by
  cases call with
  | writeHandshake =>
      obtain rfl := Option.some.inj called
      have kept (trace : Trace G Params) (origin : G) (keys : Option Keys) :
          (trace.give origin keys).pinnedAt = trace.pinnedAt := by cases keys <;> rfl
      rw [kept]
      cases pinned : trace.pinnedAt with
      | none => exact Or.inr ⟨rfl, rfl⟩
      | some origin => exact Or.inl rfl
  | readHandshake buf =>
      obtain ⟨peerParams, heard, rfl, -⟩ := read_call called
      exact Or.inl rfl
  | earlyCrypto =>
      obtain ⟨fresh, rfl, -⟩ := early_call called
      exact Or.inl rfl
  | next1rttKeys =>
      obtain ⟨keys, -, rfl⟩ := update_call called
      exact Or.inl rfl

end Sessions

/-! ### From a receiver that has caught up -/

/-- The contact begins with two fresh sessions over the groups as they are. -/
def meeting {GA GB Params : Type} (link : CatchUp.System GA GB) (client server : MlsSession Params) :
    Parties GA GB Params :=
  { link, client := Trace.start client, server := Trace.start server }

/-- A call of one of the two sessions. -/
def IsCall : Move → Prop
  | .link _ => False
  | _ => True

section Runs
variable {Params TransportError : Type} [TransportCodec Params TransportError] [HkdfSha256]
  {GA EA : Type} [ExportSecret GA EA] {GB EB : Type} [ExportSecret GB EB] {groupA : GA} {groupB : GB}
  {link : CatchUp.System GA GB} {client server : MlsSession Params} {before after : Parties GA GB Params}

/-- While the link runs nobody calls the sessions. -/
theorem meeting_reached {allowed : CatchUp.System GA GB → CatchUp.Action → Prop}
    (run : Machine.Reachable CatchUp.step allowed (CatchUp.initial groupA groupB) link) :
    Machine.Reachable KeyUpdate.step (fun _ _ => True) (KeyUpdate.start groupA groupB client server)
      (meeting link client server) := by
  induction run with
  | start => exact .start
  | next action _ _ taken ih =>
      refine ih.next (.link action) trivial ?_
      rw [KeyUpdate.step, meeting, taken]
      rfl

/-- A pinned group stays pinned, and a fresh session pins the group it is called with. -/
structure Pinned (link : CatchUp.System GA GB) (parties : Parties GA GB Params) : Prop where
  client : parties.client.pinnedAt = none ∨ parties.client.pinnedAt = some link.alice
  server : parties.server.pinnedAt = none ∨ parties.server.pinnedAt = some link.bob.group

theorem pinned_of_call {G E : Type} [ExportSecret G E] {trace next : Trace G Params} {group : G} {call : Call}
    (called : trace.call group call = some next)
    (pinned : trace.pinnedAt = none ∨ trace.pinnedAt = some group) :
    next.pinnedAt = none ∨ next.pinnedAt = some group := by
  rcases call_pinned called with same | ⟨-, fresh⟩
  · rwa [same]
  · exact Or.inr fresh

theorem stays_pinned {G E : Type} [ExportSecret G E] {trace next : Trace G Params} {group origin : G}
    {call : Call} (called : trace.call group call = some next) (pinned : trace.pinnedAt = some origin) :
    next.pinnedAt = some origin := by
  rcases call_pinned called with same | ⟨none, -⟩
  · rwa [same]
  · exact absurd (none.symm.trans pinned) (by simp)

theorem meeting_pinned
    (opened : Machine.Reachable KeyUpdate.step (fun _ move => IsCall move) (meeting link client server) after) :
    Pinned link after ∧ after.link = link := by
  apply opened.invariant
  · exact ⟨⟨Or.inl rfl, Or.inl rfl⟩, rfl⟩
  · rintro before move after ⟨pinned, same⟩ permitted taken
    cases move with
    | link action => exact permitted.elim
    | client call =>
        simp only [KeyUpdate.step, Option.map_eq_some_iff] at taken
        obtain ⟨next, called, rfl⟩ := taken
        rw [same] at called
        exact ⟨⟨pinned_of_call called pinned.client, pinned.server⟩, same⟩
    | server call =>
        simp only [KeyUpdate.step, Option.map_eq_some_iff] at taken
        obtain ⟨next, called, rfl⟩ := taken
        rw [same] at called
        exact ⟨⟨pinned.client, pinned_of_call called pinned.server⟩, same⟩

/-- Both sessions begun, whatever happens later they keep the groups they began with. -/
theorem begun_pinned (pinned : before.client.pinnedAt = some link.alice ∧
      before.server.pinnedAt = some link.bob.group)
    (later : Machine.Reachable KeyUpdate.step (fun _ _ => True) before after) :
    after.client.pinnedAt = some link.alice ∧ after.server.pinnedAt = some link.bob.group := by
  apply later.invariant
  · exact pinned
  · rintro before move after ⟨clientAt, serverAt⟩ - taken
    cases move with
    | link action =>
        simp only [KeyUpdate.step, Option.map_eq_some_iff] at taken
        obtain ⟨next, -, rfl⟩ := taken
        exact ⟨clientAt, serverAt⟩
    | client call =>
        simp only [KeyUpdate.step, Option.map_eq_some_iff] at taken
        obtain ⟨next, called, rfl⟩ := taken
        exact ⟨stays_pinned called clientAt, serverAt⟩
    | server call =>
        simp only [KeyUpdate.step, Option.map_eq_some_iff] at taken
        obtain ⟨next, called, rfl⟩ := taken
        exact ⟨clientAt, stays_pinned called serverAt⟩

end Runs

section Contact
variable {GA MA EA : Type} [MlsGroup GA MA EA] [LawfulCommit GA] {GB MB EB : Type} [MlsGroup GB MB EB]
  {Same : GA → GB → Prop} {groupA : GA} {groupB : GB} {link : CatchUp.System GA GB}

/-- With nothing left to apply the two groups are members in the same state. -/
theorem same_of_caught_up (interop : Interop Same) (same : Same groupA groupB)
    (run : Machine.Reachable CatchUp.step CatchUp.honest (CatchUp.initial groupA groupB) link)
    (caught : link.bob.localEpoch = link.alice.currentEpoch) : Same link.alice.inner link.bob.group := by
  obtain ⟨recorded, rfl, followed⟩ := standing_of_run interop same run
  have standing := standing_of_followed followed
  have nothing : recorded.alice.inner.created.length ≤ (CatchUp.erase recorded).bob.localEpoch.toNat := by
    rw [caught, standing.log.current]
  obtain ⟨middle, agree, produces⟩ := standing.behind
  rw [List.drop_eq_nil_of_le nothing] at produces
  cases produces
  exact agree

variable {Params TransportError : Type} [TransportCodec Params TransportError] [HkdfSha256] [HkdfExtract]
  [Aes128] [Aes128Gcm] [OpensSealed]

/-- After any blackout: where the receiver's epoch is the sender's, two fresh sessions
that both begin before the next commit can talk for good. What either seals in an Initial
packet, as 0-RTT, in the handshake or after it, the other opens, whatever is committed,
lost or injected afterwards; and so it is after a key update, if both groups then export
alike. -/
theorem contact_opens (interop : Interop Same)
    (exports : ∀ sender receiver, Same sender receiver → SameExports sender receiver "0-rtt" [])
    (same : Same groupA groupB)
    (run : Machine.Reachable CatchUp.step CatchUp.honest (CatchUp.initial groupA groupB) link)
    (caught : link.bob.localEpoch = link.alice.currentEpoch) {clientParams serverParams : Params}
    {client server : MlsSession Params} (clientBuilt : MlsSession.new .client clientParams = some client)
    (serverBuilt : MlsSession.new .server serverParams = some server) {contact final : Parties GA GB Params}
    (opened : Machine.Reachable KeyUpdate.step (fun _ move => IsCall move) (meeting link client server) contact)
    (begun : contact.client.pinnedAt ≠ none ∧ contact.server.pinnedAt ≠ none)
    (later : Machine.Reachable KeyUpdate.step (fun _ _ => True) contact final) :
    (∀ dstCid, Opens (initialKeys client dstCid .client) (serverInitialKeys dstCid) ∧
      Opens (serverInitialKeys dstCid) (initialKeys client dstCid .client)) ∧
    (∀ ours theirs, client.earlyCrypto link.alice = some ours →
      server.earlyCrypto link.bob.group = some theirs → Opens (zeroRtt ours) (zeroRtt theirs)) ∧
    ∀ (index : Nat) (ours theirs : Keys), final.client.returned[index]? = some ours →
      final.server.returned[index]? = some theirs → Opens ours theirs ∧ Opens theirs ours ∧
      ∀ (generation : Nat) (alice : CommitLog GA × KeyPair Aes128GcmPacketKey)
        (bob : GB × KeyPair Aes128GcmPacketKey), final.client.updates[generation]? = some alice →
        final.server.updates[generation]? = some bob →
        SameExports alice.1 bob.1 "0-rtt" (wordToBe (UInt64.ofNat (generation + 1))) →
        Opens (updated ours alice.2) (updated theirs bob.2) ∧
          Opens (updated theirs bob.2) (updated ours alice.2) := by
  have alike : SameExports link.alice link.bob.group "0-rtt" [] :=
    exports _ _ (same_of_caught_up interop same run caught)
  have kept : Kept final := kept_of_run clientBuilt serverBuilt
    (((meeting_reached run).trans (opened.mono fun _ _ _ => trivial)).trans later)
  obtain ⟨⟨clientPinned, serverPinned⟩, -⟩ := meeting_pinned opened
  obtain ⟨clientAt, serverAt⟩ := begun_pinned
    ⟨clientPinned.resolve_left begun.1, serverPinned.resolve_left begun.2⟩ later
  refine ⟨fun dstCid => opens_of_crossed (crossed_directional _ _), ?_, ?_⟩
  · intro ours theirs clientKeys serverKeys
    have pair := early_same alike (new_fields clientBuilt).1 (new_fields serverBuilt).1 clientKeys serverKeys
    rw [← pair]
    exact opens_of_same rfl rfl
  · intro index ours theirs clientReturned serverReturned
    have crossed := Handshake.pins_crossed clientAt serverAt alike
      (kept.clientSound.returned ours (List.mem_of_getElem? clientReturned))
      (kept.serverSound.returned theirs (List.mem_of_getElem? serverReturned))
    obtain ⟨sent, received⟩ := opens_of_crossed crossed
    refine ⟨sent, received, fun generation alice bob clientCall serverCall together => ?_⟩
    obtain ⟨one, two⟩ := update_same kept.clientSound kept.serverSound kept.clientCounted kept.serverCounted
      clientCall serverCall together
    exact ⟨opens_of_same crossed.headerSent.symm one.symm, opens_of_same crossed.headerReceived two⟩

end Contact

/-! ### A contact after one commit -/

section Example
/-- A stand-in for HMAC that masks the salt with the key material. -/
@[reducible] def maskedSalt : HkdfExtract where
  extract salt ikm := Vector.ofFn fun i => salt.getD i 0 ^^^ ikm.getD i 0

/-- A stand-in for AES that masks the sample with the key. -/
@[reducible] def maskedSample : Aes128 where
  encryptBlock key sample i := key[i] ^^^ sample.getD i 0

/-- A stand-in for GCM: stream and tag come from the key and the nonce, the tag also
from the header and the ciphertext. -/
@[reducible] def maskedStream : Aes128Gcm :=
  counterMode (fun key nonce index => key.toList.getD (index % 16) 0 ^^^ nonce.toList.getD (index % 12) 0)
    fun key nonce aad ciphertext =>
      Vector.ofFn fun i => (nonce.toList ++ aad ++ ciphertext).foldl (fun sum byte => 3 * sum + byte) key[i]

attribute [local instance] folded maskedSalt maskedSample maskedStream

theorem counter_exports (sender receiver : CounterGroup) (same : sender.epoch = receiver.epoch) :
    SameExports sender receiver "0-rtt" [] := by
  intro direction secret
  simp only [ExportSecret.exportSecret, MlsGroup.exportSecret, CounterGroup.exported, same]

def catchingUp : List CatchUp.Action :=
  [.createCommit, .sendPreamble 100 (fun _ => .ok ()), .deliver (datagramOf [(1, CounterGroup.commitOf 0)])]

def beginning : List Move := [.client .writeHandshake, .server .writeHandshake]

def finishing : List Move :=
  [.client (.readHandshake [2]), .server (.readHandshake [1]), .client .writeHandshake, .client .writeHandshake,
    .link .createCommit, .server .writeHandshake, .server .writeHandshake]

theorem contact_opens_after_commit : ∃ (link : CatchUp.System CounterGroup CounterGroup)
    (contact final : Parties CounterGroup CounterGroup RawParams) (ours theirs : Keys) (wire : Bytes),
    Machine.run CatchUp.step (CatchUp.initial CounterGroup.fresh CounterGroup.fresh) catchingUp = some link ∧
      Machine.run KeyUpdate.step (meeting link clientSession serverSession) beginning = some contact ∧
      Machine.run KeyUpdate.step contact finishing = some final ∧
      final.client.returned[1]? = some ours ∧ final.server.returned[1]? = some theirs ∧
      sealPacket ours 0 18 sampleHeader (List.replicate 16 0) = some wire ∧
      openPacket theirs 0 18 wire = some (.ok (sampleHeader, List.replicate 16 0)) := by
  have view : (Machine.run CatchUp.step (CatchUp.initial CounterGroup.fresh CounterGroup.fresh) catchingUp).any
      (fun link => link.bob.localEpoch = link.alice.currentEpoch ∧
        (Machine.run KeyUpdate.step (meeting link clientSession serverSession) beginning).any fun contact =>
          contact.client.pinnedAt.isSome ∧ contact.server.pinnedAt.isSome ∧
            (Machine.run KeyUpdate.step contact finishing).any fun final =>
              final.client.returned[1]?.isSome ∧ final.server.returned[1]?.isSome) = true := by
    decide +kernel
  simp only [Option.any_eq_true_iff_get, decide_eq_true_eq] at view
  obtain ⟨linked, caught, contacted, clientBegun, serverBegun, finished, clientDone, serverDone⟩ := view
  have _ : OpensSealed := counterMode_opens _ _
  have run := @Machine.reachable_of_run _ _ _ CatchUp.honest _ _ _ (by simp [catchingUp, CatchUp.honest])
    (Option.some_get linked).symm
  have opened := @Machine.reachable_of_run _ _ _ (fun _ move => IsCall move) _ _ _ (by simp [beginning, IsCall])
    (Option.some_get contacted).symm
  have later := @Machine.reachable_of_run _ _ _ (fun _ _ => True) _ _ _ (fun _ _ _ => trivial)
    (Option.some_get finished).symm
  have opens := (contact_opens counter_interop counter_exports rfl run caught
    (Option.some_get client_built).symm (Option.some_get server_built).symm opened
    ⟨Option.isSome_iff_ne_none.mp clientBegun, Option.isSome_iff_ne_none.mp serverBegun⟩ later).2.2 1 _ _
    (Option.some_get clientDone).symm (Option.some_get serverDone).symm
  obtain ⟨wire, sealed, -, answer⟩ := opens.1 0 18 sampleHeader (List.replicate 16 0) (by decide) (by decide)
    (by decide) (by decide)
  exact ⟨_, _, _, _, _, wire, (Option.some_get linked).symm, (Option.some_get contacted).symm,
    (Option.some_get finished).symm, (Option.some_get clientDone).symm, (Option.some_get serverDone).symm,
    sealed, answer⟩

end Example

end QuicMls.Contact
