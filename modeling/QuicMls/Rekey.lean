import QuicMls.SessionRuns

/-! The connected loop of `run_alice` under the key buffer of `quinn_proto`. The
library asks for the next keys one phase ahead, so the commit made just before an
update only reaches the keys of the phase after it. -/
namespace QuicMls.Rekey
open BigEndian Groups Hkdf PacketKey KeySchedule Session SessionRuns

/-- Packet keys with the group they were derived from. -/
structure Phase (G : Type) where
  origin : CommitLog G
  pair : KeyPair Aes128GcmPacketKey

structure Connection (G Params : Type) where
  log : CommitLog G
  session : MlsSession Params
  current : Phase G
  next : Phase G

inductive Event where
  | rekey
  | commit
  | report (reportedK : UInt64)

section Rekey
variable {Params TransportError : Type} [TransportCodec Params TransportError] [HkdfSha256]
  {G Message MlsError : Type} [MlsGroup G Message MlsError]

/-- `next_1rtt_keys`, with the group it reads. -/
def refill (log : CommitLog G) (session : MlsSession Params) : Option (Phase G × MlsSession Params) :=
  (session.next1rttKeys log).map fun given => ({ origin := log, pair := given.1 }, given.2)

/-- The keys of the handshake come into use and the first next keys are stored. -/
def install (log : CommitLog G) (session : MlsSession Params) (current : Phase G) :
    Option (Connection G Params) :=
  (refill log session).map fun filled => { log, session := filled.2, current, next := filled.1 }

/-- An executed update: the stored keys come into use and the store is refilled. -/
def forceKeyUpdate (connection : Connection G Params) : Option (Connection G Params) :=
  (refill connection.log connection.session).map fun filled =>
    { connection with session := filled.2, current := connection.next, next := filled.1 }

/-- One iteration of the loop, with the update executed or not, and a report that
arrives meanwhile. A commit that fails is unwrapped. -/
def step (connection : Connection G Params) : Event → Option (Connection G Params)
  | .rekey =>
      match connection.log.createCommit with
      | (.error _, _) => none
      | (.ok _, log) => forceKeyUpdate { connection with log }
  | .commit =>
      match connection.log.createCommit with
      | (.error _, _) => none
      | (.ok _, log) => some { connection with log }
  | .report reportedK => some { connection with log := connection.log.trim reportedK }

/-! ### What is in use -/

def epochOf (log : CommitLog G) : Nat := (MlsGroup.currentEpoch log.inner).toNat

/-- The keys of a phase are the export of its origin in some generation. -/
def Derived (phase : Phase G) : Prop :=
  ∃ side generation keys,
    deriveMlsKeys phase.origin "0-rtt" side (wordToBe generation) = .ok keys ∧ phase.pair = keys.packet

theorem refill_derived {log : CommitLog G} {session : MlsSession Params}
    {filled : Phase G × MlsSession Params} (refilled : refill log session = some filled) :
    filled.1.origin = log ∧ Derived filled.1 := by
  simp only [refill, Option.map_eq_some_iff] at refilled
  obtain ⟨⟨pair, next⟩, given, rfl⟩ := refilled
  obtain ⟨_, keys, derived, rfl⟩ := next1rttKeys_some given
  exact ⟨rfl, session.side, next.keyUpdateGeneration, keys, derived, rfl⟩

/-- The keys in use come from an epoch in which the last commit is applied. -/
def TakesEffect (connection : Connection G Params) : Prop :=
  epochOf connection.log ≤ epochOf connection.current.origin

/-- The stored keys are never of a later epoch than the group. -/
structure Behind (connection : Connection G Params) : Prop where
  epoch : epochOf connection.next.origin ≤ epochOf connection.log
  derived : Derived connection.next

omit [HkdfSha256] [TransportCodec Params TransportError] in
theorem commit_epoch [LawfulCommit G] {log after : CommitLog G} {bytes : Bytes}
    (made : log.createCommit = (.ok bytes, after)) : epochOf after = epochOf log + 1 :=
  create_commit_advances (CommitLog.createCommit_ok made).1

/-- A rekey takes the stored keys into use, which are older than its commit. -/
theorem rekey_cases [LawfulCommit G] {connection after : Connection G Params}
    (taken : step connection .rekey = some after) :
    after.current = connection.next ∧ epochOf after.log = epochOf connection.log + 1 ∧
      after.next.origin = after.log ∧ Derived after.next := by
  simp only [step] at taken
  cases made : connection.log.createCommit with
  | mk result log =>
      cases result with
      | error e => simp [made] at taken
      | ok bytes =>
          simp only [made, forceKeyUpdate, Option.map_eq_some_iff] at taken
          obtain ⟨filled, refilled, rfl⟩ := taken
          obtain ⟨origin, derived⟩ := refill_derived refilled
          exact ⟨rfl, commit_epoch made, origin, derived⟩

theorem behind_step [LawfulCommit G] {connection after : Connection G Params} {event : Event}
    (behind : Behind connection) (taken : step connection event = some after) : Behind after := by
  cases event with
  | rekey =>
      obtain ⟨_, _, origin, derived⟩ := rekey_cases taken
      exact ⟨by rw [origin], derived⟩
  | commit =>
      simp only [step] at taken
      cases made : connection.log.createCommit with
      | mk result log =>
          cases result with
          | error e => simp [made] at taken
          | ok bytes =>
              simp only [made, Option.some.injEq] at taken
              have advanced := commit_epoch made
              have epoch := behind.epoch
              rw [← taken]
              exact ⟨by dsimp only; omega, behind.derived⟩
  | report reportedK =>
      obtain rfl := Option.some.inj taken
      exact ⟨behind.epoch, behind.derived⟩

/-- After every executed update of every run the keys in use are the export of a
group that has not applied the commit made just before. -/
theorem rekey_never_takes_effect [LawfulCommit G] {log : CommitLog G} {session : MlsSession Params}
    {handshake : Phase G} {connection before after : Connection G Params}
    (installed : install log session handshake = some connection)
    (run : Machine.Reachable step (fun _ _ => True) connection before)
    (taken : step before .rekey = some after) :
    ¬ TakesEffect after ∧ epochOf after.current.origin ≤ epochOf before.log ∧ Derived after.current := by
  have behind : Behind before := by
    apply run.invariant
    · simp only [install, Option.map_eq_some_iff] at installed
      obtain ⟨filled, refilled, rfl⟩ := installed
      obtain ⟨origin, derived⟩ := refill_derived refilled
      exact ⟨by rw [origin], derived⟩
    · intro before event after behind _ taken
      exact behind_step behind taken
  obtain ⟨current, advanced, _⟩ := rekey_cases taken
  -- The keys that come into use were stored before the commit.
  have stale : epochOf after.current.origin ≤ epochOf before.log := by
    rw [current]
    exact behind.epoch
  refine ⟨?_, stale, by rw [current]; exact behind.derived⟩
  intro effect
  rw [TakesEffect] at effect
  omega

end Rekey

/-! ### Two iterations of the loop -/

section Example
attribute [local instance] folded

theorem session_built : (MlsSession.new .client ({ bytes := [1] } : RawParams)).isSome = true := by
  decide +kernel

def freshSession : MlsSession RawParams := (MlsSession.new .client { bytes := [1] }).get session_built

def freshLog : CommitLog CounterGroup := CommitLog.new CounterGroup.fresh

theorem handshake_derives :
    (deriveMlsKeys freshLog "0-rtt" .client []).toOption.isSome = true := by
  decide +kernel

/-- The keys of the handshake, derived before any commit. -/
def handshakeKeys : Phase CounterGroup :=
  { origin := freshLog,
    pair := ((deriveMlsKeys freshLog "0-rtt" .client []).toOption.get handshake_derives).packet }

theorem installs : (install freshLog freshSession handshakeKeys).isSome = true := by decide +kernel

def installed : Connection CounterGroup RawParams := (install freshLog freshSession handshakeKeys).get installs

theorem loops : (Machine.run step installed [.rekey, .report 1]).isSome = true := by decide +kernel

def looped : Connection CounterGroup RawParams := (Machine.run step installed [.rekey, .report 1]).get loops

theorem rekeys : (step looped .rekey).isSome = true := by decide +kernel

def rekeyed : Connection CounterGroup RawParams := (step looped .rekey).get rekeys

theorem looped_reached : Machine.Reachable step (fun _ _ => True) installed looped :=
  Machine.reachable_of_run _ _ (fun _ _ _ => trivial) (Option.some_get loops).symm

/-- The second update still uses keys of the first commit's epoch at the latest. -/
theorem second_rekey_stale : epochOf rekeyed.current.origin ≤ epochOf looped.log :=
  (rekey_never_takes_effect (Option.some_get installs).symm looped_reached (Option.some_get rekeys).symm).2.1

/-- Two iterations of the loop leave the group in epoch 2 with keys of epoch 1. -/
theorem rekey_lags_behind_commit :
    ∃ before after : Connection CounterGroup RawParams,
      Machine.Reachable step (fun _ _ => True) installed before ∧ step before .rekey = some after ∧
      epochOf after.log = 2 ∧ epochOf after.current.origin = 1 ∧ ¬ TakesEffect after := by
  have epochs : epochOf rekeyed.log = 2 ∧ epochOf rekeyed.current.origin = 1 := by decide +kernel
  refine ⟨looped, rekeyed, looped_reached, (Option.some_get rekeys).symm, epochs.1, epochs.2, ?_⟩
  rw [TakesEffect, epochs.1, epochs.2]
  decide

end Example

end QuicMls.Rekey
