import QuicMls.Machine
import QuicMls.Session

/-! Runs of the sessions one endpoint builds over a shared group. Each session
carries a trace of what it handed out: the keys, and the state of the group they
were derived from. The trace reads the calls and never changes what they do. -/
namespace QuicMls.SessionRuns
open BigEndian Groups Hkdf PacketKey KeySchedule Session

/-- Which call handed a packet key out. The first `Keys` protect the Handshake
space, everything else the Data space. -/
inductive Role where
  | firstKeys
  | secondKeys
  | early
  | update
  deriving DecidableEq

structure Handed (G : Type) where
  role : Role
  generation : UInt64
  direction : Direction
  origin : G
  key : Aes128GcmPacketKey

/-- The exporter context of a call; only `next_1rtt_keys` passes one. -/
def Role.context (generation : UInt64) : Role → Bytes
  | .update => wordToBe generation
  | _ => []

def Handed.context {G : Type} (handed : Handed G) : Bytes := handed.role.context handed.generation

structure Trace (G Params : Type) where
  session : MlsSession Params
  returned : List Keys
  pinnedAt : Option G
  heard : Bool
  handed : List (Handed G)
  updates : List (G × KeyPair Aes128GcmPacketKey)

inductive Call where
  | writeHandshake
  | readHandshake (buf : Bytes)
  | earlyCrypto
  | next1rttKeys

def handedPair {G : Type} (role : Role) (generation : UInt64) (side : Side) (origin : G)
    (pair : KeyPair Aes128GcmPacketKey) : List (Handed G) :=
  [{ role, generation, direction := side.sending, origin, key := pair.localKey },
    { role, generation, direction := side.receiving, origin, key := pair.remoteKey }]

theorem mem_handedPair {G : Type} {role : Role} {generation : UInt64} {side : Side} {origin : G}
    {pair : KeyPair Aes128GcmPacketKey} {handed : Handed G}
    (member : handed ∈ handedPair role generation side origin pair) :
    handed.role = role ∧ handed.generation = generation ∧ handed.origin = origin ∧
      (handed.direction = side.sending ∧ handed.key = pair.localKey ∨
        handed.direction = side.receiving ∧ handed.key = pair.remoteKey) := by
  simp only [handedPair, List.mem_cons, List.not_mem_nil, or_false] at member
  rcases member with rfl | rfl
  · exact ⟨rfl, rfl, rfl, Or.inl ⟨rfl, rfl⟩⟩
  · exact ⟨rfl, rfl, rfl, Or.inr ⟨rfl, rfl⟩⟩

/-- Contexts agree between keys from before any update, and between updates of
one generation. -/
theorem context_eq_iff {G H : Type} {one : Handed G} {two : Handed H} :
    one.context = two.context ↔
      one.role ≠ .update ∧ two.role ≠ .update ∨
        one.role = .update ∧ two.role = .update ∧ one.generation = two.generation := by
  cases left : one.role <;> cases right : two.role <;>
    simp [Handed.context, Role.context, left, right, wordToBe_ne_nil, (wordToBe_ne_nil _).symm,
      wordToBe_injective.eq_iff]

/-- An element of a list that grew is an old one at its place, or the last. -/
theorem found_after_concat {Element : Type} {list : List Element} {last found : Element} {index : Nat}
    (present : (list ++ [last])[index]? = some found) :
    list[index]? = some found ∨ index = list.length ∧ found = last := by
  rcases Nat.lt_or_ge index list.length with below | beyond
  · rw [List.getElem?_append_left below] at present
    exact Or.inl present
  · rw [List.getElem?_append_right beyond] at present
    have inside := (List.getElem?_eq_some_iff.mp present).1
    rw [List.length_singleton] at inside
    have here : index = list.length := by omega
    rw [here, Nat.sub_self] at present
    exact Or.inr ⟨here, (Option.some.inj present).symm⟩

section Trace
variable {Params TransportError : Type} [TransportCodec Params TransportError] [HkdfSha256]
  {G MlsError : Type} [ExportSecret G MlsError]

def Trace.start (session : MlsSession Params) : Trace G Params :=
  { session, returned := [], pinnedAt := none, heard := false, handed := [], updates := [] }

/-- Keys that `write_handshake` returns, derived from the group at `origin`. -/
def Trace.give (trace : Trace G Params) (origin : G) (keys : Option Keys) : Trace G Params :=
  match keys with
  | none => trace
  | some keys =>
      let role := if trace.returned.isEmpty then Role.firstKeys else Role.secondKeys
      { trace with
        returned := trace.returned ++ [keys],
        handed := trace.handed ++ handedPair role 0 trace.session.side origin keys.packet }

def Trace.call (group : G) (trace : Trace G Params) : Call → Option (Trace G Params)
  | .writeHandshake =>
      let written := trace.session.writeHandshake group
      -- The first call fixes the origin, whatever the state of the machine.
      let origin := trace.pinnedAt.getD group
      some (Trace.give { trace with session := written.2.2, pinnedAt := some origin } origin written.1)
  | .readHandshake buf =>
      let read := trace.session.readHandshake buf
      some { trace with session := read.2, heard := trace.heard || read.1.toBool }
  | .earlyCrypto =>
      match trace.session.earlyCrypto group with
      | none => some trace
      | some (_, key) =>
          some { trace with
            handed := trace.handed ++
              [{ role := .early, generation := 0, direction := .clientToServer, origin := group, key }] }
  | .next1rttKeys =>
      match trace.session.next1rttKeys group with
      | none => none
      | some (pair, session) =>
          some { trace with
            session,
            handed := trace.handed ++
              handedPair .update session.keyUpdateGeneration session.side group pair,
            updates := trace.updates ++ [(group, pair)] }

end Trace

/-! ### Endpoints -/

structure Endpoint (G Params : Type) where
  group : G
  sessions : List (Trace G Params)

inductive Event (Params : Type) where
  | connect (localParams : Params)
  | call (index : Nat) (call : Call)
  | createCommit
  | applyCommit (commit : Bytes)

def Endpoint.new {G Params : Type} (group : G) : Endpoint G Params := { group, sessions := [] }

section Endpoint
variable {Params TransportError : Type} [TransportCodec Params TransportError] [HkdfSha256]
  {G MlsError : Type} [ExportSecret G MlsError]

/-- A commit may succeed or fail; either way the group is the one left behind. -/
def Endpoint.step (side : Side) (endpoint : Endpoint G Params) : Event Params → Option (Endpoint G Params)
  | .connect localParams =>
      (MlsSession.new side localParams).map fun session =>
        { endpoint with sessions := endpoint.sessions ++ [Trace.start session] }
  | .call index call =>
      match endpoint.sessions[index]? with
      | none => none
      | some trace =>
          (trace.call endpoint.group call).map fun trace =>
            { endpoint with sessions := endpoint.sessions.set index trace }
  | .createCommit => some { endpoint with group := (ExportSecret.createCommit endpoint.group).2 }
  | .applyCommit commit => some { endpoint with group := (ExportSecret.applyCommit endpoint.group commit).2 }

/-- Any endpoint state of any run. -/
def Endpoint.Reached (side : Side) (group : G) (endpoint : Endpoint G Params) : Prop :=
  Machine.Reachable (Endpoint.step side) (fun _ _ => True) (Endpoint.new group) endpoint

/-- What every call keeps of a trace holds of every session of every run. -/
theorem Endpoint.Reached.trace_invariant {side : Side} {group : G} {endpoint : Endpoint G Params}
    (run : endpoint.Reached side group) (Good : Trace G Params → Prop)
    (started : ∀ localParams session, MlsSession.new side localParams = some session →
      Good (Trace.start session))
    (kept : ∀ (group : G) (before after : Trace G Params) (call : Call), Good before →
      before.call group call = some after → Good after) :
    ∀ trace ∈ endpoint.sessions, Good trace := by
  apply Machine.Reachable.invariant run
  · intro trace absurd
    simp [Endpoint.new] at absurd
  · intro before event after good _ taken
    cases event with
    | connect localParams =>
        simp only [Endpoint.step, Option.map_eq_some_iff] at taken
        obtain ⟨session, built, rfl⟩ := taken
        intro trace member
        rcases List.mem_append.mp member with old | fresh
        · exact good trace old
        · obtain rfl := List.mem_singleton.mp fresh
          exact started localParams session built
    | call index call =>
        simp only [Endpoint.step] at taken
        cases found : before.sessions[index]? with
        | none => simp [found] at taken
        | some trace =>
            simp only [found, Option.map_eq_some_iff] at taken
            obtain ⟨next, called, rfl⟩ := taken
            intro other member
            rcases List.mem_or_eq_of_mem_set member with old | rfl
            · exact good other old
            · exact kept before.group trace other call (good trace (List.mem_of_getElem? found)) called
    | createCommit =>
        obtain rfl := Option.some.inj taken
        exact good
    | applyCommit commit =>
        obtain rfl := Option.some.inj taken
        exact good

/-- A session stays where it is, and what its calls keep lasts. -/
theorem later_session {side : Side} {endpoint later : Endpoint G Params}
    (run : Machine.Reachable (Endpoint.step side) (fun _ _ => True) endpoint later)
    (Good : Trace G Params → Prop)
    (kept : ∀ (group : G) (before after : Trace G Params) (call : Call), Good before →
      before.call group call = some after → Good after)
    {index : Nat} {trace : Trace G Params} (found : endpoint.sessions[index]? = some trace)
    (good : Good trace) : ∃ after, later.sessions[index]? = some after ∧ Good after := by
  apply Machine.Reachable.invariant run
  · exact ⟨trace, found, good⟩
  · intro before event after held _ taken
    obtain ⟨trace, found, good⟩ := held
    have inside := (List.getElem?_eq_some_iff.mp found).1
    cases event with
    | connect localParams =>
        simp only [Endpoint.step, Option.map_eq_some_iff] at taken
        obtain ⟨session, _, rfl⟩ := taken
        exact ⟨trace, by rw [List.getElem?_append_left inside, found], good⟩
    | call place call =>
        simp only [Endpoint.step] at taken
        cases there : before.sessions[place]? with
        | none => simp [there] at taken
        | some other =>
            simp only [there, Option.map_eq_some_iff] at taken
            obtain ⟨next, called, rfl⟩ := taken
            by_cases same : place = index
            · subst same
              obtain rfl := Option.some.inj (found.symm.trans there)
              exact ⟨next, List.getElem?_set_self inside, kept before.group trace next call good called⟩
            · exact ⟨trace, by rw [List.getElem?_set_ne same, found], good⟩
    | createCommit =>
        obtain rfl := Option.some.inj taken
        exact ⟨trace, found, good⟩
    | applyCommit commit =>
        obtain rfl := Option.some.inj taken
        exact ⟨trace, found, good⟩

/-! ### What a call does -/

/-- What `write_handshake` can do. -/
theorem writeHandshake_cases (group : G) (session : MlsSession Params) :
    (session.state = .initial ∧ session.writeHandshake group =
      (none, TransportCodec.write session.localParams, { session with
        pinnedZeroRttUpgradeKeys := (deriveMlsKeys group "0-rtt" session.side []).toOption,
        pinnedZeroRttKeys := (deriveMlsKeys group "0-rtt" session.side []).toOption,
        state := .awaitingZeroRttKeys })) ∨
    ((session.state = .awaitingZeroRttKeys ∧ session.peerParams = none ∨ session.state = .done) ∧
      session.writeHandshake group = (none, [], session)) ∨
    (session.state = .awaitingZeroRttKeys ∧ session.peerParams ≠ none ∧ session.writeHandshake group =
      (session.pinnedZeroRttUpgradeKeys, [],
        { session with state := .confirmingZeroRttKeys, pinnedZeroRttUpgradeKeys := none })) ∨
    (session.state = .confirmingZeroRttKeys ∧ session.writeHandshake group =
      (session.pinnedZeroRttKeys, [0], { session with state := .done, pinnedZeroRttKeys := none })) := by
  rw [MlsSession.writeHandshake]
  cases state : session.state with
  | initial => exact Or.inl ⟨rfl, rfl⟩
  | awaitingZeroRttKeys =>
      cases heard : session.peerParams with
      | none => exact Or.inr (Or.inl ⟨Or.inl ⟨rfl, rfl⟩, by simp⟩)
      | some params => exact Or.inr (Or.inr (Or.inl ⟨rfl, by simp, by simp⟩))
  | confirmingZeroRttKeys => exact Or.inr (Or.inr (Or.inr ⟨rfl, rfl⟩))
  | done => exact Or.inr (Or.inl ⟨Or.inr rfl, rfl⟩)

/-- Reading touches the peer's parameters only, and keeps none from a failed read. -/
theorem read_call {trace after : Trace G Params} {group : G} {buf : Bytes}
    (called : trace.call group (.readHandshake buf) = some after) :
    ∃ peerParams heard, after = { trace with
        session := { trace.session with peerParams }, heard := trace.heard || heard } ∧
      (peerParams ≠ none → trace.session.peerParams ≠ none ∨ heard = true) := by
  obtain rfl := Option.some.inj called
  unfold MlsSession.readHandshake
  split
  · exact ⟨trace.session.peerParams, true, rfl, fun _ => Or.inr rfl⟩
  · split
    · exact ⟨trace.session.peerParams, false, rfl, Or.inl⟩
    · rename_i params read
      exact ⟨some params, true, rfl, fun _ => Or.inr rfl⟩

theorem earlyCrypto_some {group : G} {session : MlsSession Params}
    {pair : Aes128EcbHeaderKey × Aes128GcmPacketKey} (given : session.earlyCrypto group = some pair) :
    directionKey group "0-rtt" .clientToServer [] = .ok pair.2 := by
  rw [MlsSession.earlyCrypto] at given
  cases derived : deriveMlsKeys group "0-rtt" session.side [] with
  | error e => simp [derived] at given
  | ok keys =>
      obtain ⟨sent, received⟩ := directionKey_of_derive derived
      simp only [derived] at given
      cases side : session.side with
      | client =>
          simp only [side, Option.some.injEq] at given
          rw [side] at sent
          exact given ▸ sent
      | server =>
          simp only [side, Option.some.injEq] at given
          rw [side] at received
          exact given ▸ received

theorem next1rttKeys_some {group : G} {session next : MlsSession Params} {pair : KeyPair Aes128GcmPacketKey}
    (given : session.next1rttKeys group = some (pair, next)) :
    next = { session with keyUpdateGeneration := session.keyUpdateGeneration + 1 } ∧
      ∃ keys, deriveMlsKeys group "0-rtt" session.side (wordToBe next.keyUpdateGeneration) = .ok keys ∧
        pair = keys.packet := by
  simp only [MlsSession.next1rttKeys] at given
  cases derived : deriveMlsKeys group "0-rtt" session.side (wordToBe (session.keyUpdateGeneration + 1)) with
  | error e => simp [derived] at given
  | ok keys =>
      simp only [derived, Option.some.injEq, Prod.mk.injEq] at given
      obtain ⟨rfl, rfl⟩ := given
      exact ⟨rfl, keys, derived, rfl⟩

/-- `early_crypto` hands out the client's key or nothing. -/
theorem early_call {trace after : Trace G Params} {group : G}
    (called : trace.call group .earlyCrypto = some after) :
    ∃ fresh : List (Handed G), after = { trace with handed := trace.handed ++ fresh } ∧
      ∀ handed ∈ fresh, handed.role = .early ∧
        directionKey handed.origin "0-rtt" handed.direction handed.context = .ok handed.key := by
  simp only [Trace.call] at called
  cases given : trace.session.earlyCrypto group with
  | none =>
      simp only [given, Option.some.injEq] at called
      exact ⟨[], by rw [List.append_nil, called], fun _ absurd => by cases absurd⟩
  | some pair =>
      simp only [given, Option.some.injEq] at called
      refine ⟨_, called.symm, ?_⟩
      intro handed member
      obtain rfl := List.mem_singleton.mp member
      exact ⟨rfl, earlyCrypto_some given⟩

/-- `next_1rtt_keys` counts and hands out the pair of its count. -/
theorem update_call {trace after : Trace G Params} {group : G}
    (called : trace.call group .next1rttKeys = some after) :
    ∃ keys, deriveMlsKeys group "0-rtt" trace.session.side
        (wordToBe (trace.session.keyUpdateGeneration + 1)) = .ok keys ∧
      after = { trace with
        session := { trace.session with keyUpdateGeneration := trace.session.keyUpdateGeneration + 1 },
        handed := trace.handed ++ handedPair .update (trace.session.keyUpdateGeneration + 1)
          trace.session.side group keys.packet,
        updates := trace.updates ++ [(group, keys.packet)] } := by
  simp only [Trace.call] at called
  cases given : trace.session.next1rttKeys group with
  | none => simp [given] at called
  | some result =>
      obtain ⟨pair, next⟩ := result
      obtain ⟨rfl, keys, derived, rfl⟩ := next1rttKeys_some given
      simp only [given, Option.some.injEq] at called
      exact ⟨keys, derived, called.symm⟩

theorem handedPair_derived {role : Role} {generation : UInt64} {side : Side} {origin : G} {keys : Keys}
    (derived : deriveMlsKeys origin "0-rtt" side (role.context generation) = .ok keys) {handed : Handed G}
    (member : handed ∈ handedPair role generation side origin keys.packet) :
    directionKey handed.origin "0-rtt" handed.direction handed.context = .ok handed.key := by
  obtain ⟨sent, received⟩ := directionKey_of_derive derived
  obtain ⟨role, generation, origin, ⟨direction, key⟩ | ⟨direction, key⟩⟩ := mem_handedPair member
  · rw [Handed.context, role, generation, origin, direction, key, sent]
  · rw [Handed.context, role, generation, origin, direction, key, received]

/-! ### What the traces say -/

/-- The keys of a session derived from the group at the first `write_handshake`. -/
def Trace.Pins (side : Side) (trace : Trace G Params) (keys : Keys) : Prop :=
  ∃ group, trace.pinnedAt = some group ∧ deriveMlsKeys group "0-rtt" side [] = .ok keys

/-- Every key handed out is the export of its origin in its direction, and both
slots are filled at the first `write_handshake`. -/
structure Trace.Sound (side : Side) (trace : Trace G Params) : Prop where
  ofSide : trace.session.side = side
  derived : ∀ handed ∈ trace.handed,
    directionKey handed.origin "0-rtt" handed.direction handed.context = .ok handed.key
  upgrade : ∀ keys, trace.session.pinnedZeroRttUpgradeKeys = some keys → trace.Pins side keys
  zeroRtt : ∀ keys, trace.session.pinnedZeroRttKeys = some keys → trace.Pins side keys
  returned : ∀ keys ∈ trace.returned, trace.Pins side keys
  origin : ∀ handed ∈ trace.handed, handed.role = .firstKeys ∨ handed.role = .secondKeys →
    trace.pinnedAt = some handed.origin
  pinned : trace.pinnedAt = none ↔ trace.session.state = .initial

theorem start_sound {side : Side} {localParams : Params} {session : MlsSession Params}
    (built : MlsSession.new side localParams = some session) :
    (Trace.start session : Trace G Params).Sound side := by
  obtain ⟨ofSide, state, _, _, upgrade, zeroRtt⟩ := new_fields built
  exact
    { ofSide
      derived := fun _ absurd => by simp [Trace.start] at absurd
      upgrade := fun keys taken => by simp [Trace.start, upgrade] at taken
      zeroRtt := fun keys taken => by simp [Trace.start, zeroRtt] at taken
      returned := fun _ absurd => by simp [Trace.start] at absurd
      origin := fun _ absurd => by simp [Trace.start] at absurd
      pinned := ⟨fun _ => state, fun _ => rfl⟩ }

theorem Trace.Sound.handing {side : Side} {trace : Trace G Params} (sound : trace.Sound side)
    (fresh : List (Handed G))
    (derived : ∀ handed ∈ fresh,
      directionKey handed.origin "0-rtt" handed.direction handed.context = .ok handed.key)
    (origin : ∀ handed ∈ fresh, handed.role = .firstKeys ∨ handed.role = .secondKeys →
      trace.pinnedAt = some handed.origin) :
    ({ trace with handed := trace.handed ++ fresh } : Trace G Params).Sound side :=
  { sound with
    derived := fun handed member => (List.mem_append.mp member).elim (sound.derived handed) (derived handed)
    origin := fun handed member => (List.mem_append.mp member).elim (sound.origin handed) (origin handed) }

theorem Trace.Sound.give {side : Side} {trace : Trace G Params} (sound : trace.Sound side) {origin : G}
    {keys : Option Keys} (pinnedAt : trace.pinnedAt = some origin)
    (pins : ∀ k, keys = some k → trace.Pins side k) : (trace.give origin keys).Sound side := by
  cases keys with
  | none => exact sound
  | some k =>
      obtain ⟨group, same, derived⟩ := pins k rfl
      have here : group = origin := Option.some.inj (same.symm.trans pinnedAt)
      rw [here, ← sound.ofSide] at derived
      have plain : (if trace.returned.isEmpty then Role.firstKeys else Role.secondKeys).context 0 = [] := by
        cases trace.returned.isEmpty <;> rfl
      have handing := sound.handing
        (handedPair (if trace.returned.isEmpty then Role.firstKeys else Role.secondKeys) 0
          trace.session.side origin k.packet)
        (fun handed member => handedPair_derived (plain.symm ▸ derived) member)
        (fun handed member _ => by
          obtain ⟨_, _, source, _⟩ := mem_handedPair member
          rw [source, pinnedAt])
      have returned : ∀ keys ∈ trace.returned ++ [k], trace.Pins side keys := by
        intro keys member
        rcases List.mem_append.mp member with old | new
        · exact sound.returned keys old
        · rw [List.mem_singleton.mp new]
          exact pins k rfl
      exact { handing with returned }

/-- A session past its first `write_handshake` has an origin. -/
theorem Trace.Sound.begun {side : Side} {trace : Trace G Params} (sound : trace.Sound side)
    (begun : trace.session.state ≠ .initial) : ∃ origin, trace.pinnedAt = some origin :=
  Option.ne_none_iff_exists'.mp (mt sound.pinned.mp begun)

theorem write_sound {side : Side} {trace after : Trace G Params} {group : G} (sound : trace.Sound side)
    (called : trace.call group .writeHandshake = some after) : after.Sound side := by
  have ofSide := sound.ofSide
  rcases writeHandshake_cases group trace.session with ⟨initial, written⟩ | ⟨idle, written⟩ |
    ⟨awaiting, _, written⟩ | ⟨confirming, written⟩
  · have fresh : trace.pinnedAt = none := sound.pinned.mpr initial
    -- Both slots hold the export of the group at this call, if there is one.
    have filled : ∀ keys, (deriveMlsKeys group "0-rtt" trace.session.side []).toOption = some keys →
        deriveMlsKeys group "0-rtt" side [] = .ok keys := by
      intro keys taken
      rw [ofSide] at taken
      cases derived : deriveMlsKeys group "0-rtt" side [] with
      | error e => simp [derived, Except.toOption] at taken
      | ok k =>
          rw [derived, Except.toOption, Option.some.injEq] at taken
          rw [taken]
    simp only [Trace.call, written, fresh, Option.getD_none, Option.some.injEq] at called
    rw [← called]
    exact
      { ofSide
        derived := sound.derived
        upgrade := fun keys taken => ⟨group, rfl, filled keys taken⟩
        zeroRtt := fun keys taken => ⟨group, rfl, filled keys taken⟩
        returned := fun keys member => by
          obtain ⟨earlier, absurd, _⟩ := sound.returned keys member
          simp [fresh] at absurd
        origin := fun handed member keys => by
          have absurd := sound.origin handed member keys
          simp [fresh] at absurd
        pinned := ⟨fun absurd => (Option.some_ne_none _ absurd).elim, fun absurd => by cases absurd⟩ }
  · have begun : trace.session.state ≠ .initial := by
      rcases idle with ⟨state, _⟩ | state <;> simp [state]
    obtain ⟨origin, pinnedAt⟩ := sound.begun begun
    simp only [Trace.call, written, pinnedAt, Option.getD_some, Option.some.injEq] at called
    rw [← called, ← pinnedAt]
    exact sound
  · obtain ⟨origin, pinnedAt⟩ := sound.begun (by simp [awaiting])
    simp only [Trace.call, written, pinnedAt, Option.getD_some, Option.some.injEq] at called
    rw [← called, ← pinnedAt]
    apply Trace.Sound.give
    · exact { sound with
        upgrade := fun keys taken => by cases taken
        pinned := iff_of_false (by simp [pinnedAt]) (by simp) }
    · exact pinnedAt
    · intro keys slot
      exact sound.upgrade keys slot
  · obtain ⟨origin, pinnedAt⟩ := sound.begun (by simp [confirming])
    simp only [Trace.call, written, pinnedAt, Option.getD_some, Option.some.injEq] at called
    rw [← called, ← pinnedAt]
    apply Trace.Sound.give
    · exact { sound with
        zeroRtt := fun keys taken => by cases taken
        pinned := iff_of_false (by simp [pinnedAt]) (by simp) }
    · exact pinnedAt
    · intro keys slot
      exact sound.zeroRtt keys slot

theorem call_sound {side : Side} {trace after : Trace G Params} {group : G} {call : Call}
    (sound : trace.Sound side) (called : trace.call group call = some after) : after.Sound side := by
  cases call with
  | writeHandshake => exact write_sound sound called
  | readHandshake buf =>
      obtain ⟨peerParams, heard, rfl, _⟩ := read_call called
      exact { sound with }
  | earlyCrypto =>
      obtain ⟨fresh, rfl, early⟩ := early_call called
      apply sound.handing
      · intro handed member
        exact (early handed member).2
      · intro handed member keys
        simp [(early handed member).1] at keys
  | next1rttKeys =>
      obtain ⟨keys, derived, rfl⟩ := update_call called
      have handing := sound.handing
        (handedPair .update (trace.session.keyUpdateGeneration + 1) trace.session.side group keys.packet)
        (fun handed member => handedPair_derived derived member)
        (fun handed member keys => by
          obtain ⟨role, _⟩ := mem_handedPair member
          simp [role] at keys)
      exact { handing with }

/-! ### Generations -/

/-- The updates are counted, and each is handed out under its own count. -/
structure Trace.Counted (side : Side) (trace : Trace G Params) : Prop where
  ofSide : trace.session.side = side
  generation : trace.session.keyUpdateGeneration = UInt64.ofNat trace.updates.length
  handed : ∀ index update, trace.updates[index]? = some update →
    handedPair .update (UInt64.ofNat (index + 1)) side update.1 update.2 ⊆ trace.handed

omit [HkdfSha256] in
theorem start_counted {side : Side} {localParams : Params} {session : MlsSession Params}
    (built : MlsSession.new side localParams = some session) :
    (Trace.start session : Trace G Params).Counted side := by
  obtain ⟨ofSide, _, _, generation, _, _⟩ := new_fields built
  exact ⟨ofSide, generation, fun index update absurd => by simp [Trace.start] at absurd⟩

omit [TransportCodec Params TransportError] [HkdfSha256] [ExportSecret G MlsError] in
theorem give_quiet (trace : Trace G Params) (origin : G) (keys : Option Keys) :
    (trace.give origin keys).session = trace.session ∧ (trace.give origin keys).updates = trace.updates ∧
      trace.handed ⊆ (trace.give origin keys).handed := by
  cases keys with
  | none => exact ⟨rfl, rfl, List.Subset.refl _⟩
  | some keys => exact ⟨rfl, rfl, List.subset_append_left _ _⟩

/-- Only `next_1rtt_keys` counts. -/
theorem call_quiet {trace after : Trace G Params} {group : G} {call : Call} (quiet : call ≠ .next1rttKeys)
    (called : trace.call group call = some after) :
    after.session.side = trace.session.side ∧
      after.session.keyUpdateGeneration = trace.session.keyUpdateGeneration ∧
      after.updates = trace.updates ∧ trace.handed ⊆ after.handed := by
  cases call with
  | writeHandshake =>
      obtain rfl := Option.some.inj called
      obtain ⟨session, updates, handed⟩ := give_quiet { trace with
        session := (trace.session.writeHandshake group).2.2, pinnedAt := some (trace.pinnedAt.getD group) }
        (trace.pinnedAt.getD group) (trace.session.writeHandshake group).1
      rw [session, updates]
      rcases writeHandshake_cases group trace.session with ⟨_, written⟩ | ⟨_, written⟩ | ⟨_, _, written⟩ |
        ⟨_, written⟩ <;> exact ⟨by rw [written], by rw [written], rfl, handed⟩
  | readHandshake buf =>
      obtain ⟨peerParams, heard, rfl, _⟩ := read_call called
      exact ⟨rfl, rfl, rfl, List.Subset.refl _⟩
  | earlyCrypto =>
      obtain ⟨fresh, rfl, _⟩ := early_call called
      exact ⟨rfl, rfl, rfl, List.subset_append_left _ _⟩
  | next1rttKeys => exact absurd rfl quiet

theorem call_counted {side : Side} {trace after : Trace G Params} {group : G} {call : Call}
    (counted : trace.Counted side) (called : trace.call group call = some after) : after.Counted side := by
  by_cases quiet : call = .next1rttKeys
  · subst quiet
    obtain ⟨keys, _, rfl⟩ := update_call called
    have generation : trace.session.keyUpdateGeneration + 1 = UInt64.ofNat (trace.updates.length + 1) := by
      rw [counted.generation, UInt64.ofNat_add]
      rfl
    constructor
    · exact counted.ofSide
    · rw [List.length_append]
      exact generation
    · intro index update found
      rcases found_after_concat found with old | ⟨last, rfl⟩
      · exact List.Subset.trans (counted.handed index update old) (List.subset_append_left _ _)
      · rw [last, ← generation, ← counted.ofSide]
        exact List.subset_append_right _ _
  · obtain ⟨ofSide, generation, updates, handed⟩ := call_quiet quiet called
    constructor
    · rw [ofSide, counted.ofSide]
    · rw [generation, updates, counted.generation]
    · rw [updates]
      intro index update found
      exact List.Subset.trans (counted.handed index update found) handed

/-- Every session of every run is sound. -/
theorem Endpoint.Reached.sound {side : Side} {group : G} {endpoint : Endpoint G Params}
    (run : endpoint.Reached side group) : ∀ trace ∈ endpoint.sessions, trace.Sound side := by
  apply run.trace_invariant (Trace.Sound side)
  · intro localParams session built
    exact start_sound built
  · intro group before after call sound called
    exact call_sound sound called

end Endpoint

/-! ### Runs on counters -/

/-- What a list of events makes of an endpoint over a fresh counter. -/
def exchange [HkdfSha256] (side : Side) :
    List (Event RawParams) → Option (Endpoint CounterGroup RawParams) :=
  Machine.run (Endpoint.step side) (Endpoint.new CounterGroup.fresh)

theorem exchange_reached [HkdfSha256] {side : Side} {events : List (Event RawParams)}
    {endpoint : Endpoint CounterGroup RawParams} (ran : exchange side events = some endpoint) :
    endpoint.Reached side CounterGroup.fresh :=
  Machine.reachable_of_run _ events (fun _ _ _ => trivial) ran

end QuicMls.SessionRuns
