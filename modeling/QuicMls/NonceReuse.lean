import QuicMls.Separation

/-! Nonces inside one connection. The first keys a session returns protect the
Handshake space, all others the Data space, and each space numbers its packets
on its own. -/
namespace QuicMls.NonceReuse
open BigEndian Groups Hkdf PacketKey KeySchedule Session SessionRuns Separation

inductive Space where
  | handshake
  | data
  deriving DecidableEq

def space : Role → Space
  | .firstKeys => .handshake
  | .secondKeys => .data
  | .early => .data
  | .update => .data

structure Packet (G : Type) where
  handed : Handed G
  number : UInt64

/-- What no two packets of one space share. -/
def Packet.place {G : Type} (packet : Packet G) : Space × UInt64 :=
  (space packet.handed.role, packet.number)

/-- The AES key and the nonce the packet is sealed with. -/
def Packet.sealing {G : Type} (packet : Packet G) : Vector UInt8 16 × Vector UInt8 12 :=
  packet.handed.key.sealing packet.number

/-- A packet the endpoint seals with a key that this session handed out. -/
structure Sealed {G Params : Type} (side : Side) (trace : Trace G Params) (packet : Packet G) : Prop where
  handed : packet.handed ∈ trace.handed
  sent : packet.handed.direction = side.sending

section Reuse
variable {Params TransportError : Type} [TransportCodec Params TransportError] [HkdfSha256]
  {G MlsError : Type} [ExportSecret G MlsError] {Epoch : Type} {epochOf : G → Epoch}

omit [HkdfSha256] [ExportSecret G MlsError] in
/-- Packets with one number are told apart by the space, so one of them is under
the first keys and the other is not. -/
theorem one_is_first {one two : Packet G} (different : one.place ≠ two.place)
    (number : one.number = two.number) :
    one.handed.role = .firstKeys ∧ two.handed.role ≠ .firstKeys ∨
      two.handed.role = .firstKeys ∧ one.handed.role ≠ .firstKeys := by
  have spaces : space one.handed.role ≠ space two.handed.role := by
    intro same
    exact different (by rw [Packet.place, Packet.place, same, number])
  cases left : one.handed.role <;> cases right : two.handed.role <;> simp [left, right, space] at spaces ⊢

/-- One AES-GCM call is repeated exactly when one number is used in both spaces
and neither packet is under updated keys, an early key counting only while the
epoch is the one the handshake keys come from. -/
theorem nonce_reused_iff {side : Side} {group : G} {endpoint : Endpoint G Params}
    (run : endpoint.Reached side group) {trace : Trace G Params} (session : trace ∈ endpoint.sessions)
    (separates : Separates (answers epochOf trace.handed)) {one two : Packet G}
    (first : Sealed side trace one) (second : Sealed side trace two) (different : one.place ≠ two.place) :
    one.sealing = two.sealing ↔
      one.number = two.number ∧ one.handed.role ≠ .update ∧ two.handed.role ≠ .update ∧
        (one.handed.role = .early ∨ two.handed.role = .early →
          epochOf one.handed.origin = epochOf two.handed.origin) := by
  have sound := run.sound trace session
  obtain ⟨keys, origins⟩ := derived_keys_eq_iff (by rwa [Set.union_self]) first.handed second.handed
    (sound.derived _ first.handed) (sound.derived _ second.handed)
  constructor
  · intro same
    have key := keys.mp (Prod.mk.inj same).1
    obtain ⟨epoch, _, context⟩ := origins.mp key
    have number : one.number = two.number := by
      rw [Packet.sealing, Packet.sealing, key] at same
      exact sealing_eq_iff.mp same
    rcases context_eq_iff.mp context with ⟨oneKept, twoKept⟩ | ⟨oneUpdated, twoUpdated, _⟩
    · exact ⟨number, oneKept, twoKept, fun _ => epoch⟩
    · rcases one_is_first different number with ⟨role, _⟩ | ⟨role, _⟩
      · simp [oneUpdated] at role
      · simp [twoUpdated] at role
  · rintro ⟨number, oneKept, twoKept, early⟩
    have epoch : epochOf one.handed.origin = epochOf two.handed.origin := by
      by_cases involved : one.handed.role = .early ∨ two.handed.role = .early
      · exact early involved
      · -- Both come from the slots filled at the first `write_handshake`.
        have pinned : ∀ packet : Packet G, Sealed side trace packet → packet.handed.role ≠ .update →
            packet.handed.role ≠ .early → trace.pinnedAt = some packet.handed.origin := by
          intro packet held kept late
          apply sound.origin _ held.handed
          cases role : packet.handed.role <;> simp_all
        have left := pinned one first oneKept (fun early => involved (Or.inl early))
        have right := pinned two second twoKept (fun early => involved (Or.inr early))
        rw [Option.some.inj (left.symm.trans right)]
    have context : one.handed.context = two.handed.context :=
      context_eq_iff.mpr (Or.inl ⟨oneKept, twoKept⟩)
    have key := origins.mpr ⟨epoch, by rw [first.sent, second.sent], context⟩
    rw [Packet.sealing, Packet.sealing, key, number]

end Reuse

/-! ### A handshake that seals packet 0 twice -/

section Example
attribute [local instance] folded

def handshakeEvents : List (Event RawParams) :=
  [.connect { bytes := [1] }, .call 0 .writeHandshake, .call 0 (.readHandshake [2]), .call 0 .writeHandshake,
    .call 0 .writeHandshake, .call 0 .next1rttKeys]

theorem handshake_runs : (exchange .client handshakeEvents).isSome = true := by decide +kernel

def handshaken : Endpoint CounterGroup RawParams := (exchange .client handshakeEvents).get handshake_runs

theorem handshaken_reached : handshaken.Reached .client CounterGroup.fresh :=
  exchange_reached (Option.some_get handshake_runs).symm

theorem handshaken_one : handshaken.sessions.length = 1 := by decide +kernel

def handshakenTrace : Trace CounterGroup RawParams :=
  handshaken.sessions.get ⟨0, by rw [handshaken_one]; exact Nat.one_pos⟩

theorem handshaken_member : handshakenTrace ∈ handshaken.sessions := List.get_mem _ _

theorem handed_six : handshakenTrace.handed.length = 6 := by decide +kernel

theorem handshaken_separates : Separates (answers CounterGroup.epoch handshakenTrace.handed) :=
  separates_of_list (counter_answers (fun _ _ _ _ => rfl) _) (by decide +kernel) (by decide +kernel)

/-- Packet 0 under the key handed out at this place. -/
def packetZero (index : Fin 6) : Packet CounterGroup :=
  { handed := handshakenTrace.handed.get (index.cast handed_six.symm), number := 0 }

theorem packetZero_sealed {index : Fin 6}
    (sent : (packetZero index).handed.direction = Side.client.sending) :
    Sealed .client handshakenTrace (packetZero index) :=
  ⟨List.get_mem _ _, sent⟩

/-- The updated key keeps its packets apart from the handshake's. -/
theorem nonce_fresh_under_update : (packetZero 0).sealing ≠ (packetZero 4).sealing := by
  intro same
  have reuse := (nonce_reused_iff handshaken_reached handshaken_member handshaken_separates
    (packetZero_sealed (by decide +kernel)) (packetZero_sealed (by decide +kernel))
    (by decide +kernel)).mp same
  exact reuse.2.2.1 (by decide +kernel)

/-- Packet 0 of the Handshake space and packet 0 of the Data space are sealed
with one key and one nonce, though no two exports collide. -/
theorem handshake_and_data_share_nonce :
    ∃ (endpoint : Endpoint CounterGroup RawParams) (trace : Trace CounterGroup RawParams)
      (one two : Packet CounterGroup), endpoint.Reached .client CounterGroup.fresh ∧
      trace ∈ endpoint.sessions ∧ Separates (answers CounterGroup.epoch trace.handed) ∧
      Sealed .client trace one ∧ Sealed .client trace two ∧ one.place ≠ two.place ∧
      one.sealing = two.sealing :=
  ⟨handshaken, handshakenTrace, packetZero 0, packetZero 2, handshaken_reached, handshaken_member,
    handshaken_separates, packetZero_sealed (by decide +kernel), packetZero_sealed (by decide +kernel),
    by decide +kernel, by decide +kernel⟩

end Example

end QuicMls.NonceReuse
