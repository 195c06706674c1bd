import QuicMls.Session

/-! The Initial-level flight read in pieces. `read_handshake` hands each piece of the
CRYPTO stream to `TransportParameters::read` on its own and keeps the first result, so
what the session learns depends on where the first piece ends. -/
namespace QuicMls.HandshakeChunks
open BigEndian Groups Hkdf KeySchedule Session

/-! ### Cuts of a record stream -/

section Cuts
variable {Record Byte : Type*} {encode : Record → List Byte}

/-- The front of a stream ends between two records. -/
def OnBoundary (encode : Record → List Byte) (records : List Record) (front : List Byte) : Prop :=
  ∃ whole rest, records = whole ++ rest ∧ front = whole.flatMap encode

/-- The front of a stream ends inside a record. -/
def InRecord (encode : Record → List Byte) (records : List Record) (front : List Byte) : Prop :=
  ∃ whole record rest cut, records = whole ++ record :: rest ∧ cut <+: encode record ∧ cut ≠ [] ∧
    cut ≠ encode record ∧ front = whole.flatMap encode ++ cut

theorem front_of_records (records : List Record) {front : List Byte}
    (before : front <+: records.flatMap encode) :
    OnBoundary encode records front ∨ InRecord encode records front := by
  induction records generalizing front with
  | nil => exact Or.inl ⟨[], [], rfl, List.prefix_nil.mp before⟩
  | cons record rest ih =>
      rw [List.flatMap_cons] at before
      obtain ⟨tail, split⟩ := before
      rcases List.append_eq_append_iff.mp split with ⟨left, inside, _⟩ | ⟨later, rfl, behind⟩
      · by_cases nothing : front = []
        · exact Or.inl ⟨[], record :: rest, rfl, nothing⟩
        · by_cases all : front = encode record
          · exact Or.inl ⟨[record], rest, rfl, by rw [all, List.flatMap_singleton]⟩
          · exact Or.inr ⟨[], record, rest, front, rfl, ⟨left, inside.symm⟩, nothing, all, rfl⟩
      · rcases ih ⟨tail, behind.symm⟩ with ⟨whole, back, rfl, rfl⟩ | ⟨whole, next, back, cut, rfl, inside⟩
        · exact Or.inl ⟨record :: whole, back, rfl, List.flatMap_cons.symm⟩
        · obtain ⟨before, some, strict, rfl⟩ := inside
          refine Or.inr ⟨record :: whole, next, back, cut, rfl, before, some, strict, ?_⟩
          rw [List.flatMap_cons, List.append_assoc]

end Cuts

/-! ### The codec -/

/-- `TransportParameters` on the wire: `write` puts records one after the other, and
`read` takes records until its input is exhausted and fails on one cut in the middle.
What the records it took mean to a side is left open. -/
class RecordCodec (Params : Type) {TransportError : Type} [TransportCodec Params TransportError]
    (Record : outParam Type) where
  encode : Record → Bytes
  records : Params → List Record
  interpret : Side → List Record → Except TransportError Params
  write_records : ∀ params : Params, TransportCodec.write params = (records params).flatMap encode
  read_records : ∀ (side : Side) (whole : List Record),
    TransportCodec.read side (whole.flatMap encode) = interpret side whole
  read_cut : ∀ (side : Side) (whole : List Record) (record : Record) (cut : Bytes),
    cut <+: encode record → cut ≠ [] → cut ≠ encode record →
      ∃ e, (TransportCodec.read side (whole.flatMap encode ++ cut) : Except TransportError Params) = .error e

section Chunks
variable {Params TransportError : Type} [TransportCodec Params TransportError]

/-- Successive `read_handshake` calls; an error closes the connection. -/
def readChunks (session : MlsSession Params) : List Bytes → Except TransportError Unit × MlsSession Params
  | [] => (.ok (), session)
  | chunk :: rest =>
      match session.readHandshake chunk with
      | (.error e, session) => (.error e, session)
      | (.ok _, session) => readChunks session rest

/-- Both readings fail or both succeed, and with the same parameters. -/
def SameReading (one two : Except TransportError Unit × MlsSession Params) : Prop :=
  one.1.toBool = two.1.toBool ∧ one.2.peerParams = two.2.peerParams

/-- Once it has parameters a session ignores what it is given. -/
theorem readChunks_known {session : MlsSession Params} {params : Params}
    (known : session.peerParams = some params) (chunks : List Bytes) :
    readChunks session chunks = (.ok (), session) := by
  induction chunks with
  | nil => rfl
  | cons chunk rest ih =>
      rw [readChunks, MlsSession.readHandshake, known]
      exact ih

/-- The first chunk decides. -/
theorem readChunks_first {session : MlsSession Params} (unknown : session.peerParams = none)
    {first : Bytes} {answer : Except TransportError Params}
    (read : TransportCodec.read session.side first = answer) (rest : List Bytes) :
    (readChunks session (first :: rest)).1.toBool = answer.toBool ∧
      (readChunks session (first :: rest)).2.peerParams = answer.toOption := by
  rw [readChunks, MlsSession.readHandshake, unknown, read]
  cases answer with
  | error e => exact ⟨rfl, unknown⟩
  | ok params =>
      simp only
      rw [readChunks_known rfl]
      exact ⟨rfl, rfl⟩

theorem sameReading_iff {session : MlsSession Params} (unknown : session.peerParams = none)
    {first whole : Bytes} {answer expected : Except TransportError Params}
    (read : TransportCodec.read session.side first = answer)
    (readWhole : TransportCodec.read session.side whole = expected) (rest : List Bytes) :
    SameReading (readChunks session (first :: rest)) (readChunks session [whole]) ↔
      answer.toOption = expected.toOption := by
  obtain ⟨success, params⟩ := readChunks_first unknown read rest
  obtain ⟨successWhole, paramsWhole⟩ := readChunks_first unknown readWhole []
  rw [SameReading, success, params, successWhole, paramsWhole]
  constructor
  · exact And.right
  · intro same
    refine ⟨?_, same⟩
    cases answer with
    | error e =>
        cases expected with
        | error f => rfl
        | ok other => cases same
    | ok params =>
        cases expected with
        | error f => cases same
        | ok other => rfl

variable {Record : Type} [codec : RecordCodec Params Record]

/-- The first chunk ends on a boundary, and the records in it mean what all records
mean; or it ends inside a record, and all records together are refused as well. -/
def Harmless (side : Side) (params : Params) (first : Bytes) : Prop :=
  (∃ whole rest, codec.records params = whole ++ rest ∧ first = whole.flatMap codec.encode ∧
    (codec.interpret side whole).toOption = (codec.interpret side (codec.records params)).toOption) ∨
  InRecord codec.encode (codec.records params) first ∧
    (codec.interpret side (codec.records params)).toOption = none

variable [HkdfSha256] {G MlsError : Type} [ExportSecret G MlsError]

omit codec in
/-- The first `write_handshake` writes the local parameters. -/
theorem first_flight {peer : MlsSession Params} (fresh : peer.state = .initial) (group : G) :
    (peer.writeHandshake group).2.1 = TransportCodec.write peer.localParams := by
  rw [MlsSession.writeHandshake, fresh]

/-- Reading the peer's flight in chunks gives what reading it at once gives exactly
when the end of the first chunk does no harm. -/
theorem read_chunks_iff {session peer : MlsSession Params} (unknown : session.peerParams = none)
    (fresh : peer.state = .initial) (group : G) {first : Bytes} {rest : List Bytes}
    (cut : (first :: rest).flatten = (peer.writeHandshake group).2.1) :
    SameReading (readChunks session (first :: rest)) (readChunks session [(peer.writeHandshake group).2.1]) ↔
      Harmless session.side peer.localParams first := by
  rw [first_flight fresh] at cut ⊢
  have stream := codec.write_records peer.localParams
  have readWhole := codec.read_records session.side (codec.records peer.localParams)
  have before : first <+: (codec.records peer.localParams).flatMap codec.encode :=
    ⟨rest.flatten, by rw [← stream, ← cut, List.flatten_cons]⟩
  rw [stream]
  rcases front_of_records (codec.records peer.localParams) before with
    ⟨whole, left, split, rfl⟩ | inRecord
  · rw [sameReading_iff unknown (codec.read_records session.side whole) readWhole rest]
    constructor
    · intro same
      exact Or.inl ⟨whole, left, split, rfl, same⟩
    · rintro (⟨other, _, _, bytes, same⟩ | ⟨⟨other, record, _, piece, _, inside, some, strict, bytes⟩, none⟩)
      · have alike := codec.read_records session.side other
        rw [← bytes, codec.read_records session.side whole] at alike
        rw [alike, same]
      · obtain ⟨e, failed⟩ := codec.read_cut session.side other record piece inside some strict
        rw [← bytes, codec.read_records session.side whole] at failed
        rw [failed, none]
        rfl
  · obtain ⟨whole, record, left, piece, split, inside, some, strict, rfl⟩ := inRecord
    obtain ⟨e, failed⟩ := codec.read_cut session.side whole record piece inside some strict
    rw [sameReading_iff unknown failed readWhole rest]
    constructor
    · intro same
      exact Or.inr ⟨⟨whole, record, left, piece, split, inside, some, strict, rfl⟩, same.symm⟩
    · rintro (⟨other, _, _, bytes, same⟩ | ⟨_, none⟩)
      · have alike := codec.read_records session.side other
        rw [← bytes, failed] at alike
        rw [alike, same]
      · rw [none]
        rfl

end Chunks

/-! ### Parameters of one byte -/

/-- Parameters as identifiers with one-byte values. -/
structure PairParams where
  pairs : List (UInt8 × UInt8)
  deriving DecidableEq

namespace PairParams

def encodePair (pair : UInt8 × UInt8) : Bytes := [pair.1, 1, pair.2]

def readPairs : Bytes → Option (List (UInt8 × UInt8))
  | [] => some []
  | id :: 1 :: value :: rest => (readPairs rest).map fun pairs => (id, value) :: pairs
  | _ => none

instance : TransportCodec PairParams Unit where
  read _ buf :=
    match readPairs buf with
    | some pairs => .ok { pairs }
    | none => .error ()
  write params := params.pairs.flatMap encodePair

theorem readPairs_append (whole : List (UInt8 × UInt8)) (tail : Bytes) :
    readPairs (whole.flatMap encodePair ++ tail) = (readPairs tail).map fun pairs => whole ++ pairs := by
  induction whole with
  | nil => simp
  | cons pair rest ih =>
      rw [List.flatMap_cons, List.append_assoc]
      change (readPairs (rest.flatMap encodePair ++ tail)).map (fun pairs => pair :: pairs) = _
      rw [ih, Option.map_map]
      rfl

theorem readPairs_cut {pair : UInt8 × UInt8} {cut : Bytes} (inside : cut <+: encodePair pair)
    (some : cut ≠ []) (strict : cut ≠ encodePair pair) : readPairs cut = none := by
  obtain ⟨left, split⟩ := inside
  match cut, split with
  | [], _ => exact absurd rfl some
  | [id], _ => rfl
  | [id, one], split =>
      simp only [encodePair, List.cons_append, List.cons.injEq] at split
      obtain ⟨rfl, rfl, _⟩ := split
      rfl
  | id :: one :: value :: more, split =>
      simp only [encodePair, List.cons_append, List.cons.injEq, List.append_eq_nil_iff] at split
      obtain ⟨rfl, rfl, rfl, rfl, _⟩ := split
      exact absurd rfl strict

instance : RecordCodec PairParams (UInt8 × UInt8) where
  encode := encodePair
  records params := params.pairs
  interpret _ pairs := .ok { pairs }
  write_records _ := rfl
  read_records side whole := by
    have read := readPairs_append whole []
    rw [List.append_nil] at read
    simp only [TransportCodec.read, read, readPairs, Option.map_some, List.append_nil]
  read_cut side whole record cut inside some strict := by
    refine ⟨(), ?_⟩
    simp only [TransportCodec.read, readPairs_append, readPairs_cut inside some strict, Option.map_none]

/-- A session that has heard nothing yet. -/
def session (side : Side) (pairs : List (UInt8 × UInt8)) : MlsSession PairParams :=
  { side, state := .initial, localParams := { pairs }, peerParams := none, cachedPeerParams := none,
    keyUpdateGeneration := 0, pinnedZeroRttUpgradeKeys := none, pinnedZeroRttKeys := none }

def server : MlsSession PairParams := session .server []

def client : MlsSession PairParams := session .client [(4, 10), (8, 1)]

end PairParams

section Runs
open PairParams
attribute [local instance] folded

theorem read_chunks_whole :
    SameReading (readChunks server [[4, 1, 10, 8, 1, 1], []])
      (readChunks server [(client.writeHandshake CounterGroup.fresh).2.1]) := by
  have unknown : server.peerParams = none := rfl
  have fresh : client.state = .initial := rfl
  have cut : ([[4, 1, 10, 8, 1, 1], []] : List Bytes).flatten =
      (client.writeHandshake CounterGroup.fresh).2.1 := rfl
  apply (read_chunks_iff unknown fresh CounterGroup.fresh cut).mpr
  exact Or.inl ⟨[(4, 10), (8, 1)], [], rfl, rfl, rfl⟩

/-- Cut between the two records, the second is dropped without an error; cut inside
the second, the connection fails. -/
theorem read_chunks_cut :
    (client.writeHandshake CounterGroup.fresh).2.1 = [4, 1, 10, 8, 1, 1] ∧
    (readChunks server [[4, 1, 10, 8, 1, 1]]).2.peerParams = some { pairs := [(4, 10), (8, 1)] } ∧
    (readChunks server [[4, 1, 10], [8, 1, 1]]).1 = .ok () ∧
    (readChunks server [[4, 1, 10], [8, 1, 1]]).2.peerParams = some { pairs := [(4, 10)] } ∧
    (readChunks server [[4, 1, 10, 8], [1, 1]]).1 = .error () ∧
    ¬ SameReading (readChunks server [[4, 1, 10], [8, 1, 1]]) (readChunks server [[4, 1, 10, 8, 1, 1]]) ∧
    ¬ SameReading (readChunks server [[4, 1, 10, 8], [1, 1]]) (readChunks server [[4, 1, 10, 8, 1, 1]]) := by
  refine ⟨rfl, rfl, rfl, rfl, rfl, ?_, ?_⟩
  · rintro ⟨_, same⟩
    cases same
  · rintro ⟨same, _⟩
    cases same

end Runs

end QuicMls.HandshakeChunks
