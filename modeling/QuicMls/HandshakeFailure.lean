import QuicMls.Session

/-! The handshake when `export_secret` may fail. The first `write_handshake` makes
four exports. The group is shared and locked for each, so a commit can fall between
two of them and every one has an answer of its own; an error becomes an empty slot. -/
namespace QuicMls.HandshakeFailure
open BigEndian Groups Hkdf KeySchedule Session

/-- The states of the shared group that two derivations meet, in call order. -/
structure Met (G : Type) where
  upgradeClient : G
  upgradeServer : G
  pinnedClient : G
  pinnedServer : G

def Met.one {G : Type} (group : G) : Met G :=
  { upgradeClient := group, upgradeServer := group, pinnedClient := group, pinnedServer := group }

inductive HandshakeCall (G : Type) where
  | writeHandshake (met : Met G)
  | readHandshake (buf : Bytes)

/-- A session and the keys its `write_handshake` returned. -/
structure Attempt (Params : Type) where
  session : MlsSession Params
  returned : List Keys

section Calls
variable {Params TransportError : Type} [TransportCodec Params TransportError] [HkdfSha256]
  {G MlsError : Type} [ExportSecret G MlsError]

/-- `derive_mls_keys` over a group that may change between its two exports. -/
def deriveMlsKeysAcross (first second : G) (level : String) (side : Side) (context : Bytes) :
    Except MlsError Keys := do
  let clientSecret ← ExportSecret.exportSecret first (utf8 ("quic-mls c2s " ++ level)) context 32
  let serverSecret ← ExportSecret.exportSecret second (utf8 ("quic-mls s2c " ++ level)) context 32
  return deriveDirectionalKeys (.ofHash clientSecret) (.ofHash serverSecret) side

def Met.upgradeKeys (met : Met G) (side : Side) : Option Keys :=
  (deriveMlsKeysAcross met.upgradeClient met.upgradeServer "0-rtt" side []).toOption

def Met.pinnedKeys (met : Met G) (side : Side) : Option Keys :=
  (deriveMlsKeysAcross met.pinnedClient met.pinnedServer "0-rtt" side []).toOption

/-- `write_handshake`; only the first call exports. -/
def writeHandshakeAcross (met : Met G) (session : MlsSession Params) :
    Option Keys × Bytes × MlsSession Params :=
  match session.state with
  | .initial =>
      (none, TransportCodec.write session.localParams,
        { session with
          pinnedZeroRttUpgradeKeys := met.upgradeKeys session.side,
          pinnedZeroRttKeys := met.pinnedKeys session.side,
          state := .awaitingZeroRttKeys })
  | .awaitingZeroRttKeys =>
      if session.peerParams.isNone then (none, [], session)
      else
        (session.pinnedZeroRttUpgradeKeys, [],
          { session with state := .confirmingZeroRttKeys, pinnedZeroRttUpgradeKeys := none })
  | .confirmingZeroRttKeys =>
      (session.pinnedZeroRttKeys, [0], { session with state := .done, pinnedZeroRttKeys := none })
  | .done => (none, [], session)

/-- A group that stays as it is gives the session of the undisturbed model. -/
theorem writeHandshakeAcross_one (group : G) (session : MlsSession Params) :
    writeHandshakeAcross (Met.one group) session = session.writeHandshake group := by
  rw [MlsSession.writeHandshake, writeHandshakeAcross]
  rfl

def Attempt.call (attempt : Attempt Params) : HandshakeCall G → Attempt Params
  | .writeHandshake met =>
      let written := writeHandshakeAcross met attempt.session
      { session := written.2.2, returned := attempt.returned ++ written.1.toList }
  | .readHandshake buf => { attempt with session := (attempt.session.readHandshake buf).2 }

def Attempt.start (session : MlsSession Params) : Attempt Params := { session, returned := [] }

def Attempt.calls (attempt : Attempt Params) (calls : List (HandshakeCall G)) : Attempt Params :=
  calls.foldl Attempt.call attempt

/-- The groups that the first `write_handshake` of a run met. -/
def firstWrite : List (HandshakeCall G) → Option (Met G)
  | [] => none
  | .writeHandshake met :: _ => some met
  | .readHandshake _ :: rest => firstWrite rest

/-! ### What each state holds -/

/-- What the first call left in the slots is still there or was returned. -/
inductive Holds (side : Side) : Option (Met G) → Attempt Params → Prop
  | initial {session : MlsSession Params} (ofSide : session.side = side) (state : session.state = .initial) :
      Holds side none { session, returned := [] }
  | awaiting {met : Met G} {session : MlsSession Params} (ofSide : session.side = side)
      (state : session.state = .awaitingZeroRttKeys)
      (upgrade : session.pinnedZeroRttUpgradeKeys = met.upgradeKeys side)
      (pinned : session.pinnedZeroRttKeys = met.pinnedKeys side) :
      Holds side (some met) { session, returned := [] }
  | confirming {met : Met G} {session : MlsSession Params} (ofSide : session.side = side)
      (state : session.state = .confirmingZeroRttKeys)
      (pinned : session.pinnedZeroRttKeys = met.pinnedKeys side) :
      Holds side (some met) { session, returned := (met.upgradeKeys side).toList }
  | done {met : Met G} {session : MlsSession Params} (ofSide : session.side = side)
      (state : session.state = .done) :
      Holds side (some met)
        { session, returned := (met.upgradeKeys side).toList ++ (met.pinnedKeys side).toList }

omit [TransportCodec Params TransportError] [HkdfSha256] [ExportSecret G MlsError] in
theorem firstWrite_concat (calls : List (HandshakeCall G)) (call : HandshakeCall G) :
    firstWrite (calls ++ [call]) = (firstWrite calls).or (firstWrite [call]) := by
  induction calls with
  | nil => cases call <;> rfl
  | cons head rest ih =>
      cases head with
      | writeHandshake met => rfl
      | readHandshake buf => exact ih

theorem Holds.write {side : Side} {first : Option (Met G)} {attempt : Attempt Params}
    (holds : Holds side first attempt) (met : Met G) :
    Holds side (first.or (some met)) (attempt.call (.writeHandshake met)) := by
  cases holds with
  | initial ofSide state =>
      simp only [Attempt.call, writeHandshakeAcross, state, ofSide]
      exact .awaiting rfl rfl rfl rfl
  | @awaiting earlier session ofSide state upgrade pinned =>
      simp only [Attempt.call, writeHandshakeAcross, state]
      by_cases silent : session.peerParams.isNone = true
      · rw [if_pos silent]
        exact .awaiting ofSide state upgrade pinned
      · rw [if_neg silent, upgrade]
        exact .confirming ofSide rfl pinned
  | confirming ofSide state pinned =>
      simp only [Attempt.call, writeHandshakeAcross, state, pinned]
      exact .done ofSide rfl
  | done ofSide state =>
      simp only [Attempt.call, writeHandshakeAcross, state, Option.toList_none, List.append_nil]
      exact .done ofSide state

omit [HkdfSha256] in
/-- Reading touches the peer's parameters only. -/
theorem readHandshake_frame (session : MlsSession Params) (buf : Bytes) :
    ∃ peerParams, (session.readHandshake buf).2 = { session with peerParams } := by
  rw [MlsSession.readHandshake]
  split
  · exact ⟨session.peerParams, rfl⟩
  · split
    · exact ⟨session.peerParams, rfl⟩
    · exact ⟨_, rfl⟩

theorem Holds.read {side : Side} {first : Option (Met G)} {attempt : Attempt Params}
    (holds : Holds side first attempt) (buf : Bytes) :
    Holds side first (attempt.call (.readHandshake buf : HandshakeCall G)) := by
  obtain ⟨peerParams, frame⟩ := readHandshake_frame attempt.session buf
  rw [Attempt.call, frame]
  cases holds with
  | initial ofSide state => exact .initial ofSide state
  | awaiting ofSide state upgrade pinned => exact .awaiting ofSide state upgrade pinned
  | confirming ofSide state pinned => exact .confirming ofSide state pinned
  | done ofSide state => exact .done ofSide state

theorem calls_hold {side : Side} {localParams : Params} {session : MlsSession Params}
    (built : MlsSession.new side localParams = some session) (calls : List (HandshakeCall G)) :
    Holds side (firstWrite calls) ((Attempt.start session).calls calls) := by
  induction calls using List.reverseRecOn with
  | nil =>
      obtain ⟨ofSide, state, _⟩ := new_fields built
      exact .initial ofSide state
  | append_singleton front call ih =>
      rw [firstWrite_concat, Attempt.calls, List.foldl_concat]
      cases call with
      | writeHandshake met => exact ih.write met
      | readHandshake buf =>
          rw [firstWrite, firstWrite, Option.or_none]
          exact ih.read buf

/-- All four exports of the first `write_handshake` succeed. -/
def Exports (side : Side) (calls : List (HandshakeCall G)) : Prop :=
  ∃ met, firstWrite calls = some met ∧
    (deriveMlsKeysAcross met.upgradeClient met.upgradeServer "0-rtt" side []).toBool = true ∧
    (deriveMlsKeysAcross met.pinnedClient met.pinnedServer "0-rtt" side []).toBool = true

omit [HkdfSha256] in
theorem length_toOption {Error Value : Type} (result : Except Error Value) :
    result.toOption.toList.length = 1 ∧ result.toBool = true ∨
      result.toOption.toList.length = 0 ∧ result.toBool = false := by
  cases result with
  | error e => exact Or.inr ⟨rfl, rfl⟩
  | ok value => exact Or.inl ⟨rfl, rfl⟩

/-- A handshake that ends returned two `Keys` exactly when the exports of its first
call succeeded, whatever the group did before, in between and after. -/
theorem completes_with_keys_iff {side : Side} {localParams : Params} {session : MlsSession Params}
    (built : MlsSession.new side localParams = some session) (calls : List (HandshakeCall G)) :
    let attempt := (Attempt.start session).calls calls
    attempt.session.isHandshaking = false → (attempt.returned.length = 2 ↔ Exports side calls) := by
  intro attempt ended
  have state : attempt.session.state = .done := by simpa [MlsSession.isHandshaking] using ended
  have holds : Holds side (firstWrite calls) attempt := calls_hold built calls
  rw [Exports]
  generalize firstWrite calls = first at holds ⊢
  generalize attempt = last at holds state ⊢
  cases holds with
  | initial _ initial => simp [initial] at state
  | awaiting _ awaiting => simp [awaiting] at state
  | confirming _ confirming => simp [confirming] at state
  | @done met =>
      have upgrade := length_toOption
        (deriveMlsKeysAcross met.upgradeClient met.upgradeServer "0-rtt" side [])
      have pinned := length_toOption
        (deriveMlsKeysAcross met.pinnedClient met.pinnedServer "0-rtt" side [])
      simp only [Option.some.injEq, exists_eq_left', List.length_append, Met.upgradeKeys, Met.pinnedKeys]
      constructor
      · intro two
        exact ⟨upgrade.elim And.right fun none => by omega, pinned.elim And.right fun none => by omega⟩
      · rintro ⟨first, second⟩
        rcases upgrade with ⟨one, _⟩ | ⟨_, absurd⟩
        · rcases pinned with ⟨also, _⟩ | ⟨_, absurd⟩
          · omega
          · simp [second] at absurd
        · simp [first] at absurd

end Calls

/-! ### A group whose exporter can fail -/

/-- A group and whether its exporter answers. -/
structure MutedGroup where
  muted : Bool

instance : ExportSecret MutedGroup CounterGroup.Refused where
  exportSecret group label context len :=
    if group.muted then .error .refused else .ok (CounterGroup.fresh.exported label context len)
  applyCommit group _ := (.error .refused, group)
  createCommit group := (.error .refused, group)

section Runs
attribute [local instance] folded

/-- A whole handshake whose first call meets these groups. -/
def handshakeCalls (met : Met MutedGroup) : List (HandshakeCall MutedGroup) :=
  [.writeHandshake met, .readHandshake [1], .writeHandshake (.one { muted := false }),
    .writeHandshake (.one { muted := false })]

def clientSession : MlsSession RawParams :=
  { side := .client, state := .initial, localParams := { bytes := [1] }, peerParams := none,
    cachedPeerParams := some { bytes := [4, 4, 128, 1, 0, 0, 6, 4, 128, 1, 0, 0, 8, 1, 1] },
    keyUpdateGeneration := 0, pinnedZeroRttUpgradeKeys := none, pinnedZeroRttKeys := none }

theorem client_new : MlsSession.new .client ({ bytes := [1] } : RawParams) = some clientSession := by
  rfl

theorem completes_with_keys_answered :
    ((Attempt.start clientSession).calls (handshakeCalls (.one { muted := false }))).returned.length = 2 := by
  apply (completes_with_keys_iff client_new (handshakeCalls (.one { muted := false })) rfl).mpr
  exact ⟨.one { muted := false }, rfl, rfl, rfl⟩

/-- The exporter is silent during the first call only: the handshake ends without
any keys. -/
theorem completes_without_keys :
    let attempt := (Attempt.start clientSession).calls (handshakeCalls (.one { muted := true }))
    attempt.session.isHandshaking = false ∧ attempt.returned = [] :=
  ⟨rfl, rfl⟩

end Runs

end QuicMls.HandshakeFailure
