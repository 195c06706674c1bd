import QuicMls.TestbedLog

/-! What `securityBudget.py` makes of the log of a run. The analysis finds its rows by
their names, and its arithmetic is exact here. -/
namespace QuicMls.SecurityBudget
open Groups Telemetry AliceDriver
open ReportPipeline hiding step Action honest steady

/-! ### The analysis -/

structure CsvRow where
  timestampMs : ℤ
  event : String
  epoch : ℤ
  bytes : ℚ
  latencyMs : ℚ

structure RunMetrics where
  ssorMsPerS : Option ℚ
  rcMs : Option ℚ
  fBlackoutPerS : Option ℚ
  sb : Option ℚ
  steadyBytesPerS : Option ℚ
  recoveryBytesMean : Option ℚ
  nBlackouts : Nat
  nRecoveries : Nat
  warnings : List String

def mean (values : List ℚ) : ℚ := values.sum / values.length

/-- One column of the rows with an event. -/
def select (field : CsvRow → ℚ) (event : String) (rows : List CsvRow) : List ℚ :=
  (rows.filter fun row => row.event == event).map field

def totalDuration (first : CsvRow) (rows : List CsvRow) : ℚ :=
  max (((rows.getLastD first).timestampMs - first.timestampMs : ℚ) / 1000) (1 / 1000000000)

def totalSteadyCost (rows : List CsvRow) : ℚ :=
  (select CsvRow.latencyMs "commit_cpu" rows).sum + (select CsvRow.latencyMs "commit_net" rows).sum

def recoveryLatencies (rows : List CsvRow) : List ℚ :=
  select CsvRow.latencyMs "reconnect_handshake_0rtt_accepted" rows

def computeRun (aliceCsv : String) (rows : List CsvRow) : RunMetrics :=
  match rows with
  | [] =>
      { ssorMsPerS := none, rcMs := none, fBlackoutPerS := none, sb := none, steadyBytesPerS := none,
        recoveryBytesMean := none, nBlackouts := 0, nRecoveries := 0,
        warnings := [s!"empty or missing CSV: {aliceCsv}"] }
  | first :: _ =>
      let total := totalDuration first rows
      let cpuCosts := select CsvRow.latencyMs "commit_cpu" rows
      let netCosts := select CsvRow.latencyMs "commit_net" rows
      let netBytes := select CsvRow.bytes "commit_net" rows
      let idle := cpuCosts.isEmpty && netCosts.isEmpty
      let ssorMsPerS := if idle then none else some (totalSteadyCost rows / total)
      let steadyBytesPerS := if idle || netBytes.isEmpty then none else some (netBytes.sum / total)
      let nBlackouts := rows.countP fun row => row.event == "blackout_start"
      let fBlackoutPerS := some (if nBlackouts = 0 then 0 else nBlackouts / total)
      let recoveryBytes := select CsvRow.bytes "handshake_transcript_embedded" rows
      let rcMs := if (recoveryLatencies rows).isEmpty then none else some (mean (recoveryLatencies rows))
      let sb := match ssorMsPerS, fBlackoutPerS, rcMs with
        | some ssor, some fBlackout, some rc => some (ssor + rc * fBlackout)
        | some ssor, some _, none => if nBlackouts = 0 then some ssor else none
        | _, _, _ => none
      { ssorMsPerS, rcMs, fBlackoutPerS, sb, steadyBytesPerS, nBlackouts,
        recoveryBytesMean := if recoveryBytes.isEmpty then none else some (mean recoveryBytes),
        nRecoveries := (recoveryLatencies rows).length,
        warnings :=
          (if idle then ["no steady-state commit_cpu/commit_net rows found"] else []) ++
          if rcMs.isNone && nBlackouts != 0 then
            [s!"{nBlackouts} blackout(s) observed but 0 successful recoveries -- treating RC as undefined (livelock/failure), not zero"]
          else [] }

/-- A run is left out of the averages exactly when it carries a warning. -/
theorem excluded_iff_warned (aliceCsv : String) (rows : List CsvRow) :
    (computeRun aliceCsv rows).sb = none ↔ (computeRun aliceCsv rows).warnings ≠ [] := by
  cases rows with
  | nil => simp [computeRun]
  | cons first rest =>
      simp only [computeRun]
      cases idle : (select CsvRow.latencyMs "commit_cpu" (first :: rest)).isEmpty &&
        (select CsvRow.latencyMs "commit_net" (first :: rest)).isEmpty with
      | true => simp
      | false =>
          cases none : (recoveryLatencies (first :: rest)).isEmpty with
          | true => simp
          | false => simp

/-! ### The rows it finds -/

theorem name_injective : Function.Injective Event.name := by
  intro left right same
  cases left <;> cases right <;> first | rfl | simp [Event.name] at same

/-- A row as it is read back. `ms` is how a latency is printed. -/
def csv (ms : Nat → ℚ) (row : Row) : CsvRow :=
  { timestampMs := row.timestamp, event := row.event.name, epoch := row.epoch.toNat, bytes := row.bytes.toNat,
    latencyMs := ms row.latency }

section Rows
variable {ms : Nat → ℚ} {rows : List Row}

theorem countP_csv (event : Event) :
    ((rows.map (csv ms)).countP fun row => row.event == event.name) = count event rows := by
  rw [List.countP_map, count]
  congr 1
  funext row
  exact (beq_eq_decide _ _).trans (decide_eq_decide.mpr name_injective.eq_iff)

theorem length_select (field : CsvRow → ℚ) (event : Event) :
    (select field event.name (rows.map (csv ms))).length = count event rows := by
  rw [select, List.length_map, ← List.countP_eq_length_filter, countP_csv]

theorem select_latency_nonneg (event : String) (nonneg : ∀ latency, 0 ≤ ms latency) :
    0 ≤ (select CsvRow.latencyMs event (rows.map (csv ms))).sum := by
  apply List.sum_nonneg
  intro cost member
  obtain ⟨row, among, rfl⟩ := List.mem_map.mp member
  obtain ⟨source, -, rfl⟩ := List.mem_map.mp (List.mem_of_mem_filter among)
  exact nonneg _

end Rows

/-! ### What it charges -/

/-- With fewer recoveries than blackouts, the mean stands in for those that are missing. -/
theorem sum_le_mean_mul {costs : List ℚ} {blackouts : Nat} (some : costs ≠ []) (few : costs.length ≤ blackouts)
    (nonneg : 0 ≤ costs.sum) : costs.sum ≤ mean costs * blackouts := by
  have positive : (0 : ℚ) < costs.length := by exact_mod_cast List.length_pos_of_ne_nil some
  rw [mean, div_mul_eq_mul_div, le_div_iff₀ positive]
  exact mul_le_mul_of_nonneg_left (by exact_mod_cast few) nonneg

theorem sum_eq_mean_mul {costs : List ℚ} (some : costs ≠ []) : costs.sum = mean costs * costs.length := by
  have positive : (costs.length : ℚ) ≠ 0 := by exact_mod_cast (List.length_pos_of_ne_nil some).ne'
  rw [mean, div_mul_cancel₀ _ positive]

theorem totalDuration_pos (first : CsvRow) (rows : List CsvRow) : 0 < totalDuration first rows :=
  lt_max_of_lt_right (by norm_num)

/-- The budget in its three cases. -/
theorem sb_eq_some {aliceCsv : String} {first : CsvRow} {rest : List CsvRow} {budget : ℚ}
    (charged : (computeRun aliceCsv (first :: rest)).sb = some budget) :
    (recoveryLatencies (first :: rest) = [] ∧ (computeRun aliceCsv (first :: rest)).nBlackouts = 0 ∧
      budget = totalSteadyCost (first :: rest) / totalDuration first (first :: rest)) ∨
    (recoveryLatencies (first :: rest) ≠ [] ∧
      budget = totalSteadyCost (first :: rest) / totalDuration first (first :: rest) +
        mean (recoveryLatencies (first :: rest)) *
          ((computeRun aliceCsv (first :: rest)).nBlackouts / totalDuration first (first :: rest))) := by
  simp only [computeRun] at charged ⊢
  cases idle : (select CsvRow.latencyMs "commit_cpu" (first :: rest)).isEmpty &&
    (select CsvRow.latencyMs "commit_net" (first :: rest)).isEmpty with
  | true => simp [idle] at charged
  | false =>
      by_cases missing : recoveryLatencies (first :: rest) = []
      · by_cases bright : ((first :: rest).countP fun row => row.event == "blackout_start") = 0
        · simp only [idle, missing, List.isEmpty_nil, if_true, Bool.false_eq_true, if_false, if_pos bright,
            Option.some.injEq] at charged
          exact Or.inl ⟨missing, bright, charged.symm⟩
        · simp [idle, missing, bright] at charged
      · right
        refine ⟨missing, ?_⟩
        have found : (recoveryLatencies (first :: rest)).isEmpty = false := by simp [missing]
        simp only [idle, found, Bool.false_eq_true, if_false, Option.some.injEq] at charged
        rw [← charged]
        split
        · rename_i bright
          rw [bright, Nat.cast_zero, zero_div]
        · rfl

theorem sb_isSome (aliceCsv : String) (first : CsvRow) (rest : List CsvRow) :
    (computeRun aliceCsv (first :: rest)).sb.isSome = true ↔
      ¬ (select CsvRow.latencyMs "commit_cpu" (first :: rest) = [] ∧
          select CsvRow.latencyMs "commit_net" (first :: rest) = []) ∧
        ((computeRun aliceCsv (first :: rest)).nBlackouts = 0 ∨ recoveryLatencies (first :: rest) ≠ []) := by
  rw [← List.isEmpty_iff, ← List.isEmpty_iff, ← Bool.and_eq_true]
  simp only [computeRun]
  cases idle : (select CsvRow.latencyMs "commit_cpu" (first :: rest)).isEmpty &&
    (select CsvRow.latencyMs "commit_net" (first :: rest)).isEmpty with
  | true => simp
  | false =>
      by_cases missing : recoveryLatencies (first :: rest) = []
      · by_cases bright : ((first :: rest).countP fun row => row.event == "blackout_start") = 0
        · simp only [missing, List.isEmpty_nil, if_true, Bool.false_eq_true, if_false, if_pos bright]
          simp [bright]
        · simp only [missing, List.isEmpty_nil, if_true, Bool.false_eq_true, if_false, if_neg bright]
          simp [bright]
      · have found : (recoveryLatencies (first :: rest)).isEmpty = false := by simp [missing]
        simp only [found, Bool.false_eq_true, if_false]
        simp [missing]

section Runs
variable {GA GB EA EB : Type} [ExportSecret GA EA] [ExportSecret GB EB] {args : Args} {groupA : GA} {groupB : GB}
  {final : Testbed GA GB}

/-- The budget of a log that is read back, in the terms of the analysis. -/
theorem budget_of_run {ms : Nat → ℚ} (nonneg : ∀ latency, 0 ≤ ms latency) (aliceCsv : String)
    {first : CsvRow} {rest : List CsvRow}
    (run : Machine.Reachable (step args) (fun _ _ => True) (Testbed.start groupA groupB) final)
    (room : final.driver.rows.length + 1 < 2 ^ 64) (rows : final.driver.rows.map (csv ms) = first :: rest) :
    (computeRun aliceCsv (first :: rest)).nBlackouts = count .blackoutStart final.driver.rows ∧
    (computeRun aliceCsv (first :: rest)).nRecoveries = count .reconnectHandshakeAccepted final.driver.rows ∧
    (computeRun aliceCsv (first :: rest)).nRecoveries ≤ (computeRun aliceCsv (first :: rest)).nBlackouts ∧
    ((computeRun aliceCsv (first :: rest)).sb.isSome = true ↔ 0 < count .commitCpu final.driver.rows ∧
      (count .blackoutStart final.driver.rows = 0 ∨ 0 < count .reconnectHandshakeAccepted final.driver.rows)) ∧
    ∀ budget ∈ (computeRun aliceCsv (first :: rest)).sb,
      totalSteadyCost (first :: rest) + (recoveryLatencies (first :: rest)).sum ≤
        budget * totalDuration first (first :: rest) ∧
      ((computeRun aliceCsv (first :: rest)).nRecoveries = (computeRun aliceCsv (first :: rest)).nBlackouts →
        totalSteadyCost (first :: rest) + (recoveryLatencies (first :: rest)).sum =
          budget * totalDuration first (first :: rest)) := by
  obtain ⟨contacts, reader, sound⟩ := TestbedLog.sound_of_run run room
  have dark : (computeRun aliceCsv (first :: rest)).nBlackouts = count .blackoutStart final.driver.rows := by
    rw [← @countP_csv ms, rows]
    rfl
  have recovered : (recoveryLatencies (first :: rest)).length =
      count .reconnectHandshakeAccepted final.driver.rows := by
    rw [← @length_select ms _ CsvRow.latencyMs, rows]
    rfl
  have few : (recoveryLatencies (first :: rest)).length ≤ (computeRun aliceCsv (first :: rest)).nBlackouts := by
    rw [recovered, dark]
    exact (Nat.le_add_right _ _).trans (blackouts_reconnected sound.read).1
  have positive := totalDuration_pos first (first :: rest)
  refine ⟨dark, recovered, few, ?_, fun budget charged => ?_⟩
  · have cpu : select CsvRow.latencyMs "commit_cpu" (first :: rest) = [] ↔
        count .commitCpu final.driver.rows = 0 := by
      rw [← @length_select ms _ CsvRow.latencyMs, rows, List.length_eq_zero_iff]
      rfl
    have net : select CsvRow.latencyMs "commit_net" (first :: rest) = [] ↔
        count .commitNet final.driver.rows = 0 := by
      rw [← @length_select ms _ CsvRow.latencyMs, rows, List.length_eq_zero_iff]
      rfl
    have sent := commits_sent sound.read
    have unsent : 0 ≤ reader.place.unsent := by cases reader.place <;> decide
    rw [sb_isSome, cpu, net, dark, ← List.length_pos_iff, recovered]
    omega
  · have nonneg : 0 ≤ (recoveryLatencies (first :: rest)).sum := by
      rw [recoveryLatencies, ← rows]
      exact select_latency_nonneg _ nonneg
    rcases sb_eq_some charged with ⟨missing, bright, rfl⟩ | ⟨some, rfl⟩
    · rw [missing, List.sum_nil, add_zero, div_mul_cancel₀ _ positive.ne']
      exact ⟨le_rfl, fun _ => rfl⟩
    · rw [add_mul, div_mul_cancel₀ _ positive.ne', mul_assoc, div_mul_cancel₀ _ positive.ne']
      refine ⟨add_le_add_right (sum_le_mean_mul some few nonneg) _, fun all => ?_⟩
      rw [sum_eq_mean_mul some]
      exact congrArg _ (congrArg _ (congrArg _ all))

end Runs

end QuicMls.SecurityBudget
