import QuicMls.SessionRuns

/-! When two keys that were handed out are equal. What is assumed of the exporter
and of HKDF-Expand-Label is asked only of the answers a run really got: equal
secrets mean the same epoch, label and context, and no two secrets expand to one
key. -/
namespace QuicMls.Separation
open BigEndian Groups Hkdf PacketKey KeySchedule SessionRuns

structure Answer (Epoch : Type) where
  epoch : Epoch
  label : Bytes
  context : Bytes
  secret : Vector UInt8 32
  deriving DecidableEq

/-- The exporter is a collision-free function of epoch, label and context, and
HKDF-Expand-Label is collision-free on what it exported. -/
structure Separates {Epoch : Type} [HkdfSha256] (answers : Set (Answer Epoch)) : Prop where
  exporter : ∀ one ∈ answers, ∀ two ∈ answers,
    one.secret = two.secret ↔ one.epoch = two.epoch ∧ one.label = two.label ∧ one.context = two.context
  expand : ∀ one ∈ answers, ∀ two ∈ answers,
    hkdfExpandLabel one.secret.toList "quic key" [] 16 = hkdfExpandLabel two.secret.toList "quic key" [] 16 →
      one.secret = two.secret

theorem Separates.mono {Epoch : Type} [HkdfSha256] {few many : Set (Answer Epoch)}
    (separates : Separates many) (included : few ⊆ many) : Separates few where
  exporter one first two second := separates.exporter one (included first) two (included second)
  expand one first two second := separates.expand one (included first) two (included second)

theorem label_injective {one two : Direction} (same : one.label "0-rtt" = two.label "0-rtt") :
    one = two := by
  have apart : Direction.label "0-rtt" .clientToServer ≠ Direction.label "0-rtt" .serverToClient := by
    decide +kernel
  cases one <;> cases two
  · rfl
  · exact absurd same apart
  · exact absurd same.symm apart
  · rfl

section Answers
variable [HkdfSha256] {Epoch : Type} {G E : Type} [ExportSecret G E] {H F : Type} [ExportSecret H F]

/-- The exporter's answers behind the keys handed out. -/
def answers (epochOf : G → Epoch) (handed : List (Handed G)) : Set (Answer Epoch) :=
  { answer | ∃ entry ∈ handed, answer.epoch = epochOf entry.origin ∧
      answer.label = entry.direction.label "0-rtt" ∧ answer.context = entry.context ∧
      ExportSecret.exportSecret entry.origin answer.label answer.context 32 = .ok answer.secret }

omit [HkdfSha256] in
theorem answers_mono (epochOf : G → Epoch) {few many : List (Handed G)} (included : few ⊆ many) :
    answers epochOf few ⊆ answers epochOf many := by
  rintro answer ⟨entry, member, rest⟩
  exact ⟨entry, included member, rest⟩

/-- A key handed out is the expansion of one of the answers. -/
theorem answer_of_derived (epochOf : G → Epoch) {handed : List (Handed G)} {entry : Handed G}
    (member : entry ∈ handed)
    (derived : directionKey entry.origin "0-rtt" entry.direction entry.context = .ok entry.key) :
    ∃ answer ∈ answers epochOf handed, answer.epoch = epochOf entry.origin ∧
      answer.label = entry.direction.label "0-rtt" ∧ answer.context = entry.context ∧
      entry.key = (deriveKeysFromSecret (.ofHash answer.secret)).1 := by
  rw [directionKey] at derived
  cases exported : ExportSecret.exportSecret entry.origin (entry.direction.label "0-rtt") entry.context 32 with
  | error e => simp [exported, Except.map] at derived
  | ok secret =>
      rw [exported, Except.map, Except.ok.injEq] at derived
      refine ⟨⟨epochOf entry.origin, entry.direction.label "0-rtt", entry.context, secret⟩, ?_, rfl, rfl,
        rfl, derived.symm⟩
      exact ⟨entry, member, rfl, rfl, rfl, exported⟩

/-- Two keys are equal, and already their AES keys are, exactly when they were
derived in one epoch, for one direction and under one context. -/
theorem derived_keys_eq_iff {epochOf : G → Epoch} {epochOf' : H → Epoch} {ours : List (Handed G)}
    {theirs : List (Handed H)} (separates : Separates (answers epochOf ours ∪ answers epochOf' theirs))
    {one : Handed G} {two : Handed H} (first : one ∈ ours) (second : two ∈ theirs)
    (oneDerived : directionKey one.origin "0-rtt" one.direction one.context = .ok one.key)
    (twoDerived : directionKey two.origin "0-rtt" two.direction two.context = .ok two.key) :
    (one.key.key = two.key.key ↔ one.key = two.key) ∧
      (one.key = two.key ↔ epochOf one.origin = epochOf' two.origin ∧ one.direction = two.direction ∧
        one.context = two.context) := by
  obtain ⟨left, leftAnswer, leftEpoch, leftLabel, leftContext, leftKey⟩ :=
    answer_of_derived epochOf first oneDerived
  obtain ⟨right, rightAnswer, rightEpoch, rightLabel, rightContext, rightKey⟩ :=
    answer_of_derived epochOf' second twoDerived
  have exporter := separates.exporter left (Or.inl leftAnswer) right (Or.inr rightAnswer)
  have expand := separates.expand left (Or.inl leftAnswer) right (Or.inr rightAnswer)
  rw [leftEpoch, leftLabel, leftContext, rightEpoch, rightLabel, rightContext] at exporter
  -- The AES key alone decides: it fixes the secret, and the secret fixes the IV.
  have whole : one.key.key = two.key.key → left.secret = right.secret := by
    intro same
    rw [leftKey, rightKey] at same
    have left := (deriveKeysFromSecret_expand (.ofHash left.secret)).1
    have right := (deriveKeysFromSecret_expand (.ofHash right.secret)).1
    exact expand (left.trans ((congrArg some same).trans right.symm))
  have back : left.secret = right.secret → one.key = two.key := by
    intro same
    rw [leftKey, rightKey, same]
  constructor
  · constructor
    · intro same
      exact back (whole same)
    · intro same
      rw [same]
  · constructor
    · intro same
      obtain ⟨epoch, label, context⟩ := exporter.mp (whole (by rw [same]))
      exact ⟨epoch, label_injective label, context⟩
    · rintro ⟨epoch, direction, context⟩
      exact back (exporter.mpr ⟨epoch, by rw [direction], context⟩)

end Answers

/-! ### Checking separation -/

/-- Separation of answers that are all on a list is a check on the pairs of that list. -/
theorem separates_of_list [HkdfSha256] {Epoch : Type} {answered : Set (Answer Epoch)}
    {list : List (Answer Epoch)} (listed : ∀ answer ∈ answered, answer ∈ list)
    (secrets : list.Pairwise fun one two =>
      one.secret = two.secret ↔ one.epoch = two.epoch ∧ one.label = two.label ∧ one.context = two.context)
    (expansions : list.Pairwise fun one two =>
      hkdfExpandLabel one.secret.toList "quic key" [] 16 = hkdfExpandLabel two.secret.toList "quic key" [] 16 →
        one.secret = two.secret) : Separates answered where
  exporter one first two second := by
    refine secrets.forall_of_forall_of_flip (fun _ _ => by simp) (secrets.imp ?_)
      (listed one first) (listed two second)
    intro left right same
    constructor
    · intro secret
      obtain ⟨epoch, label, context⟩ := same.mp secret.symm
      exact ⟨epoch.symm, label.symm, context.symm⟩
    · rintro ⟨epoch, label, context⟩
      exact (same.mpr ⟨epoch.symm, label.symm, context.symm⟩).symm
  expand one first two second := by
    refine expansions.forall_of_forall_of_flip (fun _ _ _ => rfl) (expansions.imp ?_)
      (listed one first) (listed two second)
    intro left right same key
    exact (same key.symm).symm

def counterAnswer {G : Type} (counter : G → CounterGroup) (entry : Handed G) : Answer UInt64 :=
  { epoch := (counter entry.origin).epoch, label := entry.direction.label "0-rtt",
    context := entry.context,
    secret := (counter entry.origin).exported (entry.direction.label "0-rtt") entry.context 32 }

/-- The answers of a group that exports what a counter inside it exports. -/
theorem counter_answers {G E : Type} [ExportSecret G E] {counter : G → CounterGroup}
    (exports : ∀ group label context len, ExportSecret.exportSecret group label context len =
      .ok ((counter group).exported label context len)) (handed : List (Handed G)) :
    ∀ answer ∈ answers (fun group => (counter group).epoch) handed,
      answer ∈ handed.map (counterAnswer counter) := by
  rintro ⟨epoch, label, context, secret⟩ ⟨entry, member, rfl, rfl, rfl, exported⟩
  rw [exports] at exported
  have same := Except.ok.inj exported
  dsimp only at same
  rw [← same]
  exact List.mem_map_of_mem member

end QuicMls.Separation
