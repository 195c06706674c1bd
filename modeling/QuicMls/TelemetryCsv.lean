import QuicMls.Csv
import QuicMls.Decimal
import QuicMls.HarnessLog
import QuicMls.SecurityBudget

/-! The file between the harness and its analysis: the text that `Telemetry` writes, one
flushed row after another, and what `securityBudget.py` reads in it. -/
namespace QuicMls.TelemetryCsv
open Groups Csv Decimal SecurityBudget
open AliceDriver (Args Testbed)

/-! ### The text -/

/-- What `row` is called with, and the wall clock. The latency is in thousandths of a
millisecond, to which it is printed. -/
structure Entry where
  timestamp : Nat
  event : String
  epoch : UInt64
  bytes : UInt64
  latency : Nat

def mode : String := "0rtt"

def header : List (List Char) :=
  ["timestamp_ms", "event", "epoch", "bytes", "latency_ms", "mode"].map String.toList

def Entry.record (entry : Entry) : List (List Char) :=
  [Nat.toDigits 10 entry.timestamp, entry.event.toList, Nat.toDigits 10 entry.epoch.toNat,
    Nat.toDigits 10 entry.bytes.toNat, fixed 3 entry.latency, mode.toList]

/-- The file once these rows have been written. -/
def file (entries : List Entry) : List Char := write (header :: entries.map Entry.record)

/-! ### The analysis -/

/-- `convert(text) if text else zero`. -/
def orZero {Number : Type} [Zero Number] (convert : List Char → Option Number) :
    Option (List Char) → Option Number
  | none => some 0
  | some [] => some 0
  | some text => convert text

/-- The conversions of `compute_run`; each may raise (`none`). -/
def csvRow (names record : List (List Char)) : Option CsvRow := do
  let epoch ← (value names record "epoch".toList).bind (orZero readInt)
  let bytes ← (value names record "bytes".toList).bind (orZero readDecimal)
  let latencyMs ← (value names record "latency_ms".toList).bind (orZero readDecimal)
  let timestampMs ← (value names record "timestamp_ms".toList).bind fun text => text.bind readInt
  let event ← value names record "event".toList
  return { timestampMs, event := String.ofList (event.getD []), epoch, bytes, latencyMs }

def readCsvRows (text : List Char) : Option (List CsvRow) :=
  (readNamed text).bind fun named => named.2.mapM (csvRow named.1)

/-- `compute_run` of a path, and of what is there. -/
def computeRunFile (aliceCsv : String) : Option (List Char) → Option RunMetrics
  | none => some (computeRun aliceCsv [])
  | some text => (readCsvRows text).map (computeRun aliceCsv)

/-! ### Reading the text -/

/-- The row that an entry is read back as. -/
def Entry.csv (entry : Entry) : CsvRow :=
  { timestampMs := entry.timestamp, event := entry.event, epoch := entry.epoch.toNat, bytes := entry.bytes.toNat,
    latencyMs := entry.latency / 1000 }

theorem plain_of_digits {text : List Char} (digits : Digits text) : Plain text := by
  intro char member
  have digit := digits char member
  refine ⟨?_, ne_of_digit digit rfl, ne_of_digit digit rfl⟩
  simp [isNewline, ne_of_digit digit]

theorem fixed_plain (places value : Nat) : Plain (fixed places value) := by
  intro char member
  rcases List.mem_append.mp member with member | member
  · exact plain_of_digits (toDigits_digits _) char member
  · rcases List.mem_cons.mp member with rfl | member
    · decide
    · exact plain_of_digits (padded_digits _ _) char member

theorem record_plain {entry : Entry} (named : Plain entry.event.toList) : PlainRecord entry.record := by
  refine ⟨fun field member => ?_, by simp [Entry.record], by simp [Entry.record]⟩
  simp only [Entry.record, List.mem_cons, List.not_mem_nil, or_false] at member
  rcases member with rfl | rfl | rfl | rfl | rfl | rfl
  · exact plain_of_digits (toDigits_digits _)
  · exact named
  · exact plain_of_digits (toDigits_digits _)
  · exact plain_of_digits (toDigits_digits _)
  · exact fixed_plain _ _
  · simp [Plain, isNewline, mode]

theorem header_plain : PlainRecord header := by
  refine ⟨?_, by simp [header], by simp [header]⟩
  simp [header, Plain, isNewline]

theorem header_columns :
    column header "timestamp_ms".toList = some 0 ∧ column header "event".toList = some 1 ∧
      column header "epoch".toList = some 2 ∧ column header "bytes".toList = some 3 ∧
      column header "latency_ms".toList = some 4 := by
  decide +kernel

theorem orZero_of_ne_nil {Number : Type} [Zero Number] (convert : List Char → Option Number) {text : List Char}
    (some : text ≠ []) : orZero convert (Option.some text) = convert text := by
  cases text with
  | nil => exact absurd rfl some
  | cons char rest => rfl

theorem csvRow_record (entry : Entry) : csvRow header entry.record = some entry.csv := by
  obtain ⟨timestamp, event, epoch, bytes, latency⟩ := header_columns
  have whole (value : Nat) : orZero readDecimal (some (Nat.toDigits 10 value)) = some (value : ℚ) := by
    rw [orZero_of_ne_nil _ Nat.toDigits_ne_nil, readDecimal_toDigits]
  have number (value : Nat) : orZero readInt (some (Nat.toDigits 10 value)) = some (value : ℤ) := by
    rw [orZero_of_ne_nil _ Nat.toDigits_ne_nil, readInt_toDigits]
  have places (value : Nat) : orZero readDecimal (some (fixed 3 value)) = some ((value : ℚ) / 10 ^ 3) := by
    rw [orZero_of_ne_nil _ (by simp [fixed]), readDecimal_fixed]
  simp only [csvRow, value, timestamp, event, epoch, bytes, latency, Entry.record, Option.map_some,
    Option.bind_some, List.getElem?_cons_zero, List.getElem?_cons_succ, whole, number, places,
    readInt_toDigits, Entry.csv, Option.bind_eq_bind, Option.pure_def, Option.getD_some, String.ofList_toList]
  norm_num

theorem readCsvRows_file {entries : List Entry} (named : ∀ entry ∈ entries, Plain entry.event.toList) :
    readCsvRows (file entries) = some (entries.map Entry.csv) := by
  have plain : ∀ record ∈ header :: entries.map Entry.record, PlainRecord record := by
    intro record member
    rcases List.mem_cons.mp member with rfl | member
    · exact header_plain
    · obtain ⟨entry, among, rfl⟩ := List.mem_map.mp member
      exact record_plain (named entry among)
  rw [readCsvRows, file, readNamed_write plain, Option.bind_some]
  clear plain named
  induction entries with
  | nil => rfl
  | cons entry entries ih =>
      rw [List.map_cons, List.mapM_cons, csvRow_record, ih]
      rfl

/-! ### Both logs -/

section Logs
variable (thousandths : Nat → Nat)

def aliceEntry (row : Telemetry.Row) : Entry :=
  { timestamp := row.timestamp, event := row.event.name, epoch := row.epoch, bytes := row.bytes,
    latency := thousandths row.latency }

def bobEntry (row : BobDriver.Row) : Entry :=
  { timestamp := row.timestamp, event := row.event.name, epoch := row.epoch, bytes := 0,
    latency := thousandths row.latency }

def aliceFile (rows : List Telemetry.Row) : List Char := file (rows.map (aliceEntry thousandths))

def bobFile (rows : List BobDriver.Row) : List Char := file (rows.map (bobEntry thousandths))

/-- A latency as it is read back. -/
def printed (latency : Nat) : ℚ := thousandths latency / 1000

theorem readCsvRows_aliceFile (rows : List Telemetry.Row) :
    readCsvRows (aliceFile thousandths rows) = some (rows.map (csv (printed thousandths))) := by
  have named : ∀ entry ∈ rows.map (aliceEntry thousandths), Plain entry.event.toList := by
    intro entry member
    obtain ⟨row, -, rfl⟩ := List.mem_map.mp member
    cases event : row.event <;> simp [aliceEntry, event, Telemetry.Event.name, Plain, isNewline]
  rw [aliceFile, readCsvRows_file named, List.map_map]
  rfl

theorem readCsvRows_bobFile (rows : List BobDriver.Row) :
    readCsvRows (bobFile thousandths rows) = some (rows.map fun row => (bobEntry thousandths row).csv) := by
  have named : ∀ entry ∈ rows.map (bobEntry thousandths), Plain entry.event.toList := by
    intro entry member
    obtain ⟨row, -, rfl⟩ := List.mem_map.mp member
    cases event : row.event <;> simp [bobEntry, event, BobDriver.Event.name, Plain, isNewline]
  rw [bobFile, readCsvRows_file named, List.map_map]
  rfl

/-- At every moment the analysis reads in either file the rows written so far, each with
what was logged and its latency as printed. -/
theorem log_read_back (aliceRows : List Telemetry.Row) (bobRows : List BobDriver.Row) :
    readCsvRows (aliceFile thousandths aliceRows) = some (aliceRows.map (csv (printed thousandths))) ∧
      readCsvRows (bobFile thousandths bobRows) = some (bobRows.map fun row => (bobEntry thousandths row).csv) :=
  ⟨readCsvRows_aliceFile thousandths aliceRows, readCsvRows_bobFile thousandths bobRows⟩

/-- What the rows of an event report to have cost, in milliseconds. -/
def cost (event : Telemetry.Event) (rows : List Telemetry.Row) : ℚ :=
  ((rows.filter fun row => row.event = event).map fun row => printed thousandths row.latency).sum

/-- The seconds from the first row to the last. -/
def seconds : List Telemetry.Row → ℚ
  | [] => 0
  | first :: rest =>
      max ((((first :: rest).getLastD first).timestamp - first.timestamp : ℚ) / 1000) (1 / 1000000000)

theorem sum_select (event : Telemetry.Event) (rows : List Telemetry.Row) :
    (select CsvRow.latencyMs event.name (rows.map (csv (printed thousandths)))).sum =
      cost thousandths event rows := by
  rw [select, cost, List.filter_map, List.map_map]
  congr 2
  refine List.filter_congr fun row _ => ?_
  exact (beq_eq_decide _ _).trans (decide_eq_decide.mpr name_injective.eq_iff)

theorem totalDuration_csv (first : Telemetry.Row) (rest : List Telemetry.Row) :
    totalDuration (csv (printed thousandths) first) ((first :: rest).map (csv (printed thousandths))) =
      seconds (first :: rest) := by
  rw [totalDuration, seconds, List.getLastD_eq_getLast?, List.getLastD_eq_getLast?, List.getLast?_map]
  cases last : (first :: rest).getLast? with
  | none => cases List.getLast?_eq_none_iff.mp last
  | some row => simp [csv]

section Runs
variable {GA GB EA EB : Type} [ExportSecret GA EA] [ExportSecret GB EB] {args : Args} {groupA : GA} {groupB : GB}
  {final : Testbed GA GB}

/-- The budget of the file of any run is defined exactly if a commit was sent and some
blackout, if there was one, was recovered from, and where it is not the analysis warns;
and it never charges less than the rows report, and just that when every blackout was
recovered from. -/
theorem budget_charged (aliceCsv : String)
    (run : Machine.Reachable (AliceDriver.step args) (fun _ _ => True) (Testbed.start groupA groupB) final)
    (room : final.driver.rows.length + 1 < 2 ^ 64) :
    ∃ metrics, computeRunFile aliceCsv (some (aliceFile thousandths final.driver.rows)) = some metrics ∧
      metrics.nBlackouts = Telemetry.count .blackoutStart final.driver.rows ∧
      metrics.nRecoveries = Telemetry.count .reconnectHandshakeAccepted final.driver.rows ∧
      metrics.nRecoveries ≤ metrics.nBlackouts ∧
      (metrics.sb.isSome = true ↔ 0 < Telemetry.count .commitCpu final.driver.rows ∧
        (metrics.nBlackouts = 0 ∨ 0 < metrics.nRecoveries)) ∧
      (metrics.sb = none ↔ metrics.warnings ≠ []) ∧
      ∀ budget ∈ metrics.sb,
        cost thousandths .commitCpu final.driver.rows + cost thousandths .commitNet final.driver.rows +
            cost thousandths .reconnectHandshakeAccepted final.driver.rows ≤
          budget * seconds final.driver.rows ∧
        (metrics.nRecoveries = metrics.nBlackouts →
          cost thousandths .commitCpu final.driver.rows + cost thousandths .commitNet final.driver.rows +
              cost thousandths .reconnectHandshakeAccepted final.driver.rows =
            budget * seconds final.driver.rows) := by
  refine ⟨_, by rw [computeRunFile, readCsvRows_aliceFile, Option.map_some], ?_⟩
  cases rows : final.driver.rows with
  | nil => simp [computeRun, Telemetry.count]
  | cons first rest =>
      have mapped : final.driver.rows.map (csv (printed thousandths)) =
          csv (printed thousandths) first :: rest.map (csv (printed thousandths)) := by rw [rows]; rfl
      have nonneg (latency : Nat) : 0 ≤ printed thousandths latency := by unfold printed; positivity
      obtain ⟨dark, recovered, few, defined, charged⟩ := budget_of_run nonneg aliceCsv run room mapped
      rw [rows] at dark recovered defined
      refine ⟨dark, recovered, few, ?_, excluded_iff_warned aliceCsv _, fun budget here => ?_⟩
      · rw [List.map_cons, defined, dark, recovered]
      · have spent := charged budget here
        have steady : totalSteadyCost ((first :: rest).map (csv (printed thousandths))) =
            cost thousandths .commitCpu (first :: rest) + cost thousandths .commitNet (first :: rest) := by
          rw [totalSteadyCost, ← sum_select, ← sum_select]
          rfl
        have reconnected : (recoveryLatencies ((first :: rest).map (csv (printed thousandths)))).sum =
            cost thousandths .reconnectHandshakeAccepted (first :: rest) := by
          rw [recoveryLatencies, ← sum_select]
          rfl
        rw [← steady, ← reconnected, ← totalDuration_csv]
        exact spent

end Runs

end Logs

def inMillis : Args :=
  { commitInterval := 10000000, duration := 40000000, blackoutOn := 15000000, blackoutOff := 8000000,
    reportTimeout := 5000000, transcriptMaxBytes := 100 }

def aliceAtMs (ms : Nat) (outcomes : List AliceDriver.Outcome) : List AliceDriver.Action :=
  outcomes.map (.alice (ms * 1000000) ms)

/-- One commit is sent, and the blackout after it is recovered from. -/
def recoveredRun : List AliceDriver.Action :=
  aliceAtMs 0 [.go, .ready (some 1), .go, .go, .accepted true, .go, .go, .go, .tick false, .go] ++
  aliceAtMs 2 [.go, .sendTo fun _ => .ok (), .go, .go, .go] ++ aliceAtMs 15 [.deadline, .go, .go, .go, .go] ++
  aliceAtMs 23 [.deadline, .go, .go, .ready (some 2), .sendTo fun _ => .ok (), .go] ++
  aliceAtMs 27 [.accepted true, .go]

theorem budget_charged_recovered : ∃ final metrics budget,
    Machine.run (AliceDriver.step inMillis) (Testbed.start CounterGroup.fresh CounterGroup.fresh)
      recoveredRun = some final ∧
      computeRunFile "alice_i10.csv" (some (aliceFile (· / 1000) final.driver.rows)) = some metrics ∧
      metrics.nBlackouts = 1 ∧ metrics.nRecoveries = 1 ∧ metrics.sb = some budget ∧
      cost (· / 1000) .commitCpu final.driver.rows + cost (· / 1000) .commitNet final.driver.rows +
          cost (· / 1000) .reconnectHandshakeAccepted final.driver.rows =
        budget * seconds final.driver.rows := by
  have view : (Machine.run (AliceDriver.step inMillis)
      (Testbed.start CounterGroup.fresh CounterGroup.fresh) recoveredRun).map (fun final =>
        (final.driver.rows.length, Telemetry.count .blackoutStart final.driver.rows,
          Telemetry.count .reconnectHandshakeAccepted final.driver.rows,
          Telemetry.count .commitCpu final.driver.rows)) = some (9, 1, 1, 1) := by
    decide +kernel
  obtain ⟨final, ran, same⟩ := Option.map_eq_some_iff.mp view
  simp only [Prod.mk.injEq] at same
  obtain ⟨length, dark, recovered, sent⟩ := same
  have run := @Machine.reachable_of_run _ _ _ (fun _ _ => True) _ _ _ (fun _ _ _ => trivial) ran
  obtain ⟨metrics, read, blackouts, recoveries, -, defined, -, charged⟩ :=
    budget_charged (· / 1000) "alice_i10.csv" run (by rw [length]; decide)
  rw [dark] at blackouts
  rw [recovered] at recoveries
  obtain ⟨budget, here⟩ := Option.isSome_iff_exists.mp
    (defined.mpr ⟨by rw [sent]; decide, Or.inr (by rw [recoveries]; decide)⟩)
  exact ⟨final, metrics, budget, ran, read, blackouts, recoveries, here,
    (charged budget here).2 (recoveries.trans blackouts.symm)⟩

end QuicMls.TelemetryCsv
