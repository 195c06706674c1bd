import QuicMls.Groups
import QuicMls.Hkdf
import QuicMls.PacketKey

/-! Key derivation: the exporter gives one secret for each direction, and each
secret a packet key and a header key. Which of the two is local depends on the
side, so the two sides of one export hold the same keys crosswise. -/
namespace QuicMls.KeySchedule
open BigEndian Groups Hkdf PacketKey

inductive Side where
  | client
  | server
  deriving DecidableEq

structure KeyPair (T : Type) where
  localKey : T
  remoteKey : T
  deriving DecidableEq

structure Keys where
  header : KeyPair Aes128EcbHeaderKey
  packet : KeyPair Aes128GcmPacketKey
  deriving DecidableEq

section Derive
variable [HkdfSha256]

def deriveKeysFromSecret (secret : Prk) : Aes128GcmPacketKey × Aes128EcbHeaderKey :=
  let key := (hkdfExpandLabel secret.bytes "quic key" [] 16).get (secret.expands _ _ (by decide))
  let iv := (hkdfExpandLabel secret.bytes "quic iv" [] 12).get (secret.expands _ _ (by decide))
  let hp := (hkdfExpandLabel secret.bytes "quic hp" [] 16).get (secret.expands _ _ (by decide))
  ({ key, iv }, { key := hp })

/-- The three expansions behind the keys of one secret. -/
theorem deriveKeysFromSecret_expand (secret : Prk) :
    hkdfExpandLabel secret.bytes "quic key" [] 16 = some (deriveKeysFromSecret secret).1.key ∧
      hkdfExpandLabel secret.bytes "quic iv" [] 12 = some (deriveKeysFromSecret secret).1.iv ∧
      hkdfExpandLabel secret.bytes "quic hp" [] 16 = some (deriveKeysFromSecret secret).2.key :=
  ⟨(Option.some_get _).symm, (Option.some_get _).symm, (Option.some_get _).symm⟩

def deriveDirectionalKeys (clientSecret serverSecret : Prk) (side : Side) : Keys :=
  let (clientPacket, clientHeader) := deriveKeysFromSecret clientSecret
  let (serverPacket, serverHeader) := deriveKeysFromSecret serverSecret
  match side with
  | .client =>
      { header := { localKey := clientHeader, remoteKey := serverHeader },
        packet := { localKey := clientPacket, remoteKey := serverPacket } }
  | .server =>
      { header := { localKey := serverHeader, remoteKey := clientHeader },
        packet := { localKey := serverPacket, remoteKey := clientPacket } }

def deriveMlsKeys {G MlsError : Type} [ExportSecret G MlsError] (group : G) (level : String) (side : Side)
    (context : Bytes) : Except MlsError Keys := do
  let clientSecret ← ExportSecret.exportSecret group (utf8 ("quic-mls c2s " ++ level)) context 32
  let serverSecret ← ExportSecret.exportSecret group (utf8 ("quic-mls s2c " ++ level)) context 32
  return deriveDirectionalKeys (.ofHash clientSecret) (.ofHash serverSecret) side

end Derive

/-! ### Directions -/

inductive Direction where
  | clientToServer
  | serverToClient
  deriving DecidableEq

def Direction.label (level : String) : Direction → Bytes
  | .clientToServer => utf8 ("quic-mls c2s " ++ level)
  | .serverToClient => utf8 ("quic-mls s2c " ++ level)

/-- The direction a side protects with its local keys. -/
def Side.sending : Side → Direction
  | .client => .clientToServer
  | .server => .serverToClient

def Side.receiving : Side → Direction
  | .client => .serverToClient
  | .server => .clientToServer

section Directions
variable [HkdfSha256] {G MlsError : Type} [ExportSecret G MlsError]

/-- The packet key one export gives for one direction. -/
def directionKey (group : G) (level : String) (direction : Direction) (context : Bytes) :
    Except MlsError Aes128GcmPacketKey :=
  (ExportSecret.exportSecret group (direction.label level) context 32).map
    fun secret => (deriveKeysFromSecret (.ofHash secret)).1

theorem deriveMlsKeys_ok {group : G} {level : String} {side : Side} {context : Bytes} {keys : Keys} :
    deriveMlsKeys group level side context = .ok keys ↔ ∃ clientSecret serverSecret,
      ExportSecret.exportSecret group (Direction.clientToServer.label level) context 32 = .ok clientSecret ∧
      ExportSecret.exportSecret group (Direction.serverToClient.label level) context 32 = .ok serverSecret ∧
      deriveDirectionalKeys (.ofHash clientSecret) (.ofHash serverSecret) side = keys := by
  simp only [deriveMlsKeys, Direction.label]
  cases client : ExportSecret.exportSecret group (utf8 ("quic-mls c2s " ++ level)) context 32 with
  | error e => simp [bind, Except.bind]
  | ok clientSecret =>
      cases server : ExportSecret.exportSecret group (utf8 ("quic-mls s2c " ++ level)) context 32 with
      | error e => simp [bind, Except.bind]
      | ok serverSecret => simp [bind, Except.bind, pure, Except.pure]

/-- The pair a side gets is the keys of the two directions. -/
theorem directionKey_of_derive {group : G} {level : String} {side : Side} {context : Bytes} {keys : Keys}
    (derived : deriveMlsKeys group level side context = .ok keys) :
    directionKey group level side.sending context = .ok keys.packet.localKey ∧
      directionKey group level side.receiving context = .ok keys.packet.remoteKey := by
  obtain ⟨clientSecret, serverSecret, client, server, rfl⟩ := deriveMlsKeys_ok.mp derived
  cases side with
  | client =>
      simp [directionKey, Side.sending, Side.receiving, client, server, Except.map, deriveDirectionalKeys]
  | server =>
      simp [directionKey, Side.sending, Side.receiving, client, server, Except.map, deriveDirectionalKeys]

end Directions

/-! ### Agreement -/

/-- Each side's local keys are the other's remote keys. -/
structure Crossed (client server : Keys) : Prop where
  headerSent : client.header.localKey = server.header.remoteKey
  headerReceived : client.header.remoteKey = server.header.localKey
  packetSent : client.packet.localKey = server.packet.remoteKey
  packetReceived : client.packet.remoteKey = server.packet.localKey

theorem crossed_directional [HkdfSha256] (clientSecret serverSecret : Prk) :
    Crossed (deriveDirectionalKeys clientSecret serverSecret .client)
      (deriveDirectionalKeys clientSecret serverSecret .server) :=
  ⟨rfl, rfl, rfl, rfl⟩

/-- Two groups, possibly of different members, whose exporters give the same two
secrets for a level and a context. -/
def SameExports {G H E F : Type} [ExportSecret G E] [ExportSecret H F] (left : G) (right : H) (level : String)
    (context : Bytes) : Prop :=
  ∀ (direction : Direction) (secret : Vector UInt8 32),
    ExportSecret.exportSecret left (direction.label level) context 32 = .ok secret ↔
      ExportSecret.exportSecret right (direction.label level) context 32 = .ok secret

theorem crossed_derived [HkdfSha256] {G H E F : Type} [ExportSecret G E] [ExportSecret H F] {left : G}
    {right : H} {level : String} {context : Bytes} (same : SameExports left right level context)
    {client server : Keys}
    (clientDerived : deriveMlsKeys left level .client context = .ok client)
    (serverDerived : deriveMlsKeys right level .server context = .ok server) : Crossed client server := by
  -- Equal exports give both sides the same two secrets.
  obtain ⟨clientSecret, serverSecret, sent, received, rfl⟩ := deriveMlsKeys_ok.mp clientDerived
  obtain ⟨clientAgain, serverAgain, sentAgain, receivedAgain, rfl⟩ := deriveMlsKeys_ok.mp serverDerived
  have one := ((same _ _).mp sent).symm.trans sentAgain
  have two := ((same _ _).mp received).symm.trans receivedAgain
  rw [Except.ok.inj one, Except.ok.inj two]
  exact crossed_directional _ _

end QuicMls.KeySchedule
