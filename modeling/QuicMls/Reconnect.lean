import QuicMls.NonceReuse

/-! Sessions that one endpoint builds over one group. Nothing of a connection
enters the derivation, so two sessions get the same key whenever they ask in the
same epoch under the same context. -/
namespace QuicMls.Reconnect
open BigEndian Groups Hkdf PacketKey KeySchedule Session SessionRuns Separation NonceReuse

section Reconnect
variable {Params TransportError : Type} [TransportCodec Params TransportError] [HkdfSha256]
  {G MlsError : Type} [ExportSecret G MlsError] {Epoch : Type} {epochOf : G → Epoch}

/-- Two sessions of any run hand out one key for one direction, and so repeat the
nonces of restarting packet numbers, exactly when they derive it in the same
epoch, both before any key update or both in key updates of one generation. -/
theorem reconnect_reuses_iff {side : Side} {group : G} {endpoint : Endpoint G Params}
    (run : endpoint.Reached side group) {earlier later : Nat} {former latter : Trace G Params}
    (formerAt : endpoint.sessions[earlier]? = some former) (latterAt : endpoint.sessions[later]? = some latter)
    (separates : Separates (answers epochOf (former.handed ++ latter.handed))) {one two : Handed G}
    (first : one ∈ former.handed) (second : two ∈ latter.handed)
    (direction : one.direction = two.direction) :
    (one.key = two.key ↔ epochOf one.origin = epochOf two.origin ∧
      (one.role ≠ .update ∧ two.role ≠ .update ∨
        one.role = .update ∧ two.role = .update ∧ one.generation = two.generation)) ∧
    ∀ number again, one.key.sealing number = two.key.sealing again ↔
      one.key = two.key ∧ number = again := by
  have formerSound := run.sound former (List.mem_of_getElem? formerAt)
  have latterSound := run.sound latter (List.mem_of_getElem? latterAt)
  have both : Separates (answers epochOf former.handed ∪ answers epochOf latter.handed) := by
    apply separates.mono
    apply Set.union_subset
    · exact answers_mono epochOf (List.subset_append_left _ _)
    · exact answers_mono epochOf (List.subset_append_right _ _)
  obtain ⟨keys, origins⟩ := derived_keys_eq_iff both first second (formerSound.derived one first)
    (latterSound.derived two second)
  constructor
  · rw [origins, ← context_eq_iff]
    constructor
    · rintro ⟨epoch, _, context⟩
      exact ⟨epoch, context⟩
    · rintro ⟨epoch, context⟩
      exact ⟨epoch, direction, context⟩
  · intro number again
    constructor
    · intro same
      have key := keys.mp (Prod.mk.inj same).1
      rw [key] at same
      exact ⟨key, sealing_eq_iff.mp same⟩
    · rintro ⟨key, rfl⟩
      rw [key]

end Reconnect

/-! ### A reconnect that is retried -/

section Example
attribute [local instance] folded

/-- The first attempt gets as far as 0-RTT, the second follows without a commit,
and the third after one. -/
def retryEvents : List (Event RawParams) :=
  [.connect { bytes := [1] }, .call 0 .earlyCrypto, .connect { bytes := [1] }, .call 1 .earlyCrypto,
    .createCommit, .connect { bytes := [1] }, .call 2 .earlyCrypto]

theorem retry_runs : (exchange .client retryEvents).isSome = true := by decide +kernel

def retried : Endpoint CounterGroup RawParams := (exchange .client retryEvents).get retry_runs

theorem retried_reached : retried.Reached .client CounterGroup.fresh :=
  exchange_reached (Option.some_get retry_runs).symm

theorem retried_three : retried.sessions.length = 3 := by decide +kernel

def attempt (index : Fin 3) : Trace CounterGroup RawParams :=
  retried.sessions.get (index.cast retried_three.symm)

theorem attempt_at (index : Fin 3) : retried.sessions[index.val]? = some (attempt index) :=
  List.getElem?_eq_getElem _

theorem attempts_handed : ∀ index, (attempt index).handed.length = 1 := by decide +kernel

/-- The 0-RTT key of an attempt. -/
def earlyKey (index : Fin 3) : Handed CounterGroup :=
  (attempt index).handed.get ⟨0, by rw [attempts_handed]; exact Nat.one_pos⟩

/-- A commit between two attempts gives the later one a new key. -/
theorem reconnect_fresh_after_commit : (earlyKey 1).key ≠ (earlyKey 2).key := by
  intro same
  have separates : Separates (answers CounterGroup.epoch ((attempt 1).handed ++ (attempt 2).handed)) :=
    separates_of_list (counter_answers (fun _ _ _ _ => rfl) _) (by decide +kernel) (by decide +kernel)
  have reuse := ((reconnect_reuses_iff retried_reached (attempt_at 1) (attempt_at 2) separates
    (List.get_mem _ _ : earlyKey 1 ∈ _) (List.get_mem _ _ : earlyKey 2 ∈ _) (by decide +kernel)).1).mp same
  exact absurd reuse.1 (by decide +kernel)

/-- Without one both attempts seal packet 0 under the same key and nonce. -/
theorem retry_repeats_key :
    ∃ (endpoint : Endpoint CounterGroup RawParams) (former latter : Trace CounterGroup RawParams)
      (one two : Handed CounterGroup), endpoint.Reached .client CounterGroup.fresh ∧
      endpoint.sessions[0]? = some former ∧ endpoint.sessions[1]? = some latter ∧
      Separates (answers CounterGroup.epoch (former.handed ++ latter.handed)) ∧
      one ∈ former.handed ∧ two ∈ latter.handed ∧ one.direction = two.direction ∧ one.key = two.key ∧
      one.key.sealing 0 = two.key.sealing 0 :=
  ⟨retried, attempt 0, attempt 1, earlyKey 0, earlyKey 1, retried_reached, attempt_at 0, attempt_at 1,
    separates_of_list (counter_answers (fun _ _ _ _ => rfl) _) (by decide +kernel) (by decide +kernel),
    List.get_mem _ _, List.get_mem _ _, by decide +kernel, by decide +kernel, by decide +kernel⟩

end Example

end QuicMls.Reconnect
