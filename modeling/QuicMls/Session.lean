import QuicMls.KeySchedule

/-! `MlsSession`: the handshake state machine that stands in for TLS. The boxed
group is shared with other sessions and with the application, so it is passed
to each call beside the session. The transport-parameter codec of `quinn_proto`
is a parameter. -/
namespace QuicMls.Session
open BigEndian Groups Hkdf PacketKey KeySchedule

inductive HsState where
  | initial
  | awaitingZeroRttKeys
  | confirmingZeroRttKeys
  | done
  deriving DecidableEq

/-- `TransportParameters::read` and `write`. -/
class TransportCodec (Params : Type) (TransportError : outParam Type) where
  read : Side → Bytes → Except TransportError Params
  write : Params → Bytes

structure MlsSession (Params : Type) where
  side : Side
  state : HsState
  localParams : Params
  peerParams : Option Params
  cachedPeerParams : Option Params
  keyUpdateGeneration : UInt64
  pinnedZeroRttUpgradeKeys : Option Keys
  pinnedZeroRttKeys : Option Keys

/-- Parameters kept as the bytes they came in. -/
structure RawParams where
  bytes : Bytes
  deriving DecidableEq

/-- Reads anything that does not start with a malformed identifier. -/
instance : TransportCodec RawParams Unit where
  read _ buf := if buf.head? = some 0xFF then .error () else .ok { bytes := buf }
  write params := params.bytes

/-! ### Cached parameters -/

def TP_INITIAL_MAX_DATA : Nat := 0x04
def TP_INITIAL_MAX_STREAM_DATA_BIDI_REMOTE : Nat := 0x06
def TP_INITIAL_MAX_STREAMS_BIDI : Nat := 0x08

/-- `VarInt::encode`, for the values below `2^62` that a `VarInt` holds. -/
def encodeVarInt (value : Nat) : Bytes :=
  if value < 2 ^ 6 then toBe 1 value
  else if value < 2 ^ 14 then toBe 2 (2 ^ 14 + value)
  else if value < 2 ^ 30 then toBe 4 (2 * 2 ^ 30 + value)
  else toBe 8 (3 * 2 ^ 62 + value)

def encodeTransportParam (id value : Nat) : Bytes :=
  let encodedValue := encodeVarInt value
  encodeVarInt id ++ encodeVarInt encodedValue.length ++ encodedValue

section Session
variable {Params TransportError : Type} [TransportCodec Params TransportError]

def syntheticCachedPeerParams (side : Side) : Except TransportError Params :=
  TransportCodec.read side
    (encodeTransportParam TP_INITIAL_MAX_DATA 65536 ++
      encodeTransportParam TP_INITIAL_MAX_STREAM_DATA_BIDI_REMOTE 65536 ++
      encodeTransportParam TP_INITIAL_MAX_STREAMS_BIDI 1)

/-- `none` is the panic of a client whose cached parameters do not parse. -/
def MlsSession.new (side : Side) (localParams : Params) : Option (MlsSession Params) :=
  let session (cachedPeerParams : Option Params) : MlsSession Params :=
    { side, state := .initial, localParams, peerParams := none, cachedPeerParams,
      keyUpdateGeneration := 0, pinnedZeroRttUpgradeKeys := none, pinnedZeroRttKeys := none }
  match side with
  | .client => (syntheticCachedPeerParams side).toOption.map fun params => session (some params)
  | .server => some (session none)

namespace MlsSession

def isHandshaking (session : MlsSession Params) : Bool := session.state != .done

def transportParameters (session : MlsSession Params) : Option Params :=
  session.peerParams.or session.cachedPeerParams

def readHandshake (session : MlsSession Params) (buf : Bytes) :
    Except TransportError Bool × MlsSession Params :=
  match session.peerParams with
  | some _ => (.ok false, session)
  | none =>
      match TransportCodec.read session.side buf with
      | .error e => (.error e, session)
      | .ok params => (.ok false, { session with peerParams := some params })

variable [HkdfSha256] {G MlsError : Type} [ExportSecret G MlsError]

def earlyCrypto (group : G) (session : MlsSession Params) :
    Option (Aes128EcbHeaderKey × Aes128GcmPacketKey) :=
  match deriveMlsKeys group "0-rtt" session.side [] with
  | .error _ => none
  | .ok keys =>
      match session.side with
      | .client => some (keys.header.localKey, keys.packet.localKey)
      | .server => some (keys.header.remoteKey, keys.packet.remoteKey)

/-- The keys returned and the bytes appended to the handshake buffer. -/
def writeHandshake (group : G) (session : MlsSession Params) :
    Option Keys × Bytes × MlsSession Params :=
  match session.state with
  | .initial =>
      (none, TransportCodec.write session.localParams,
        { session with
          pinnedZeroRttUpgradeKeys := (deriveMlsKeys group "0-rtt" session.side []).toOption,
          pinnedZeroRttKeys := (deriveMlsKeys group "0-rtt" session.side []).toOption,
          state := .awaitingZeroRttKeys })
  | .awaitingZeroRttKeys =>
      if session.peerParams.isNone then (none, [], session)
      else
        (session.pinnedZeroRttUpgradeKeys, [],
          { session with state := .confirmingZeroRttKeys, pinnedZeroRttUpgradeKeys := none })
  | .confirmingZeroRttKeys =>
      (session.pinnedZeroRttKeys, [0], { session with state := .done, pinnedZeroRttKeys := none })
  | .done => (none, [], session)

/-- `none` is the panic on a group without an exporter secret. -/
def next1rttKeys (group : G) (session : MlsSession Params) :
    Option (KeyPair Aes128GcmPacketKey × MlsSession Params) :=
  -- The counter moves before the export, so the first context is 1.
  let keyUpdateGeneration := session.keyUpdateGeneration + 1
  match deriveMlsKeys group "0-rtt" session.side (wordToBe keyUpdateGeneration) with
  | .error _ => none
  | .ok keys => some (keys.packet, { session with keyUpdateGeneration })

end MlsSession

theorem new_fields {side : Side} {localParams : Params} {session : MlsSession Params}
    (built : MlsSession.new side localParams = some session) :
    session.side = side ∧ session.state = .initial ∧ session.peerParams = none ∧
      session.keyUpdateGeneration = 0 ∧ session.pinnedZeroRttUpgradeKeys = none ∧
      session.pinnedZeroRttKeys = none := by
  cases side with
  | client =>
      simp only [MlsSession.new, Option.map_eq_some_iff] at built
      obtain ⟨_, _, rfl⟩ := built
      exact ⟨rfl, rfl, rfl, rfl, rfl, rfl⟩
  | server =>
      obtain rfl := Option.some.inj built
      exact ⟨rfl, rfl, rfl, rfl, rfl, rfl⟩

end Session

end QuicMls.Session
