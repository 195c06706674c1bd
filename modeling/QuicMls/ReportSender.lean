import QuicMls.Control
import QuicMls.MessageStream
import QuicMls.ReportStream
import QuicMls.Watch

/-! `run_report_sender`, step by step. Between two steps other tasks run, the epoch may
be published again and the stream may take any part of what is being written. -/
namespace QuicMls.ReportSender
open BigEndian Control MessageStream ReportStream Watch

/-- Where the task stands. -/
inductive Point where
  | borrow
  | load (epoch : UInt64)
  | write (rest : Bytes)
  | changed
  | ended
  deriving DecidableEq

/-- The task, with all the bytes its stream has taken. -/
structure SenderTask where
  point : Point
  seen : Nat
  shouldReport : Bool
  written : Bytes
  deriving DecidableEq

inductive Event where
  | run
  | take (count : Nat)
  | fail
  | abort
  | setShouldReport (value : Bool)

/-- A receiver cloned from one that was never read has seen version `seen`. -/
def SenderTask.spawn (seen : Nat) (shouldReport : Bool) : SenderTask :=
  { point := .borrow, seen, shouldReport, written := [] }

def reportSenderStep (epochRx : Channel UInt64) (sender : SenderTask) : Event → Option SenderTask
  | .run =>
      match sender.point with
      | .borrow =>
          let (epoch, seen) := epochRx.borrowAndUpdate
          some { sender with point := .load epoch, seen }
      | .load epoch =>
          some { sender with
            point := if sender.shouldReport then .write (encode (.report epoch)) else .changed }
      -- `write_all` returns when the stream has taken the last byte.
      | .write [] => some { sender with point := .changed }
      | .write (_ :: _) => none
      | .changed =>
          match epochRx.changed sender.seen with
          | none => none
          | some (.ok seen) => some { sender with point := .borrow, seen }
          | some (.error _) => some { sender with point := .ended }
      | .ended => none
  | .take count =>
      match sender.point with
      | .write rest =>
          if 0 < count ∧ count ≤ rest.length then
            some { sender with point := .write (rest.drop count), written := sender.written ++ rest.take count }
          else none
      | _ => none
  | .fail =>
      match sender.point with
      | .write _ => some { sender with point := .ended }
      | _ => none
  | .abort => some { sender with point := .ended }
  | .setShouldReport value => some { sender with shouldReport := value }

/-! ### What the task has written -/

def reports (epochs : List UInt64) : Bytes := (epochs.map ControlMessage.report).flatMap encode

theorem reports_concat (epochs : List UInt64) (epoch : UInt64) :
    reports (epochs ++ [epoch]) = reports epochs ++ encode (.report epoch) := by
  simp [reports]

/-- How the point of the task fits the epochs it has begun to report and the bytes it
has still to write. -/
def Point.Fits (epochRx : Channel UInt64) (Known : UInt64 → Prop) (seen : Nat) (epochs : List UInt64)
    (rest : Bytes) : Point → Prop
  | .borrow => rest = [] ∧ ∀ earlier ∈ epochs, earlier < epochRx.value
  | .load epoch =>
      rest = [] ∧ epochRx.Behind seen (epochs ++ [epoch]) ∧ (∀ earlier ∈ epochs, earlier < epoch) ∧ Known epoch
  | .write left => rest = left ∧ epochRx.Behind seen epochs
  | .changed => rest = [] ∧ epochRx.Behind seen epochs
  | .ended => ∀ earlier ∈ epochs, earlier ≤ epochRx.value

/-- The task has the latest epoch in hand or has reported it, unless it has changed. -/
def Point.UpToDate (epochRx : Channel UInt64) (seen : Nat) (epochs : List UInt64) : Point → Prop
  | .load epoch => seen = epochRx.version → epoch = epochRx.value
  | .write _ => seen = epochRx.version → epochRx.value ∈ epochs
  | .changed => seen = epochRx.version → epochRx.value ∈ epochs
  | _ => True

/-- The task writes rising epochs, one whole report after the other. `Steady` runs never
clear the flag. -/
structure Sound (epochRx : Channel UInt64) (Known : UInt64 → Prop) (Steady : Prop) (sender : SenderTask)
    (epochs : List UInt64) (rest : Bytes) : Prop where
  whole : reports epochs = sender.written ++ rest
  rising : epochs.Pairwise (· < ·)
  known : ∀ epoch ∈ epochs, Known epoch
  fits : sender.point.Fits epochRx Known sender.seen epochs rest
  upToDate : Steady → sender.shouldReport = true ∧ sender.point.UpToDate epochRx sender.seen epochs

section Sound
variable {epochRx : Channel UInt64} {Known : UInt64 → Prop} {Steady : Prop} {sender after : SenderTask}
  {epochs : List UInt64} {rest : Bytes}

theorem spawn_sound (seen : Nat) : Sound epochRx Known Steady (.spawn seen true) [] [] where
  whole := rfl
  rising := .nil
  known := fun _ absurd => by cases absurd
  fits := ⟨rfl, fun _ absurd => by cases absurd⟩
  upToDate := fun _ => ⟨rfl, trivial⟩

theorem Sound.mono {More : UInt64 → Prop} (sound : Sound epochRx Known Steady sender epochs rest)
    (grows : ∀ epoch, Known epoch → More epoch) : Sound epochRx More Steady sender epochs rest := by
  obtain ⟨whole, rising, known, fits, upToDate⟩ := sound
  refine ⟨whole, rising, fun epoch member => grows epoch (known epoch member), ?_, upToDate⟩
  cases point : sender.point with
  | load epoch =>
      rw [point] at fits
      obtain ⟨none, behind, earlier, here⟩ := fits
      exact ⟨none, behind, earlier, grows epoch here⟩
  | borrow => rwa [point] at fits
  | write left => rwa [point] at fits
  | changed => rwa [point] at fits
  | ended => rwa [point] at fits

theorem Sound.le_value (sound : Sound epochRx Known Steady sender epochs rest) :
    ∀ epoch ∈ epochs, epoch ≤ epochRx.value := by
  have fits := sound.fits
  cases point : sender.point with
  | borrow =>
      rw [point] at fits
      exact fun epoch member => (fits.2 epoch member).le
  | load latest =>
      rw [point] at fits
      exact fun epoch member => fits.2.1.le epoch (List.mem_append_left _ member)
  | write left =>
      rw [point] at fits
      exact fits.2.le
  | changed =>
      rw [point] at fits
      exact fits.2.le
  | ended =>
      rw [point] at fits
      exact fits

/-- A higher epoch is published. -/
theorem Sound.sendReplace {value : UInt64} (sound : Sound epochRx Known Steady sender epochs rest)
    (rises : epochRx.value < value) :
    Sound (epochRx.sendReplace value) Known Steady sender epochs rest := by
  obtain ⟨whole, rising, known, fits, upToDate⟩ := sound
  cases point : sender.point with
  | borrow =>
      rw [point] at fits
      refine ⟨whole, rising, known, ?_, fun steady => ⟨(upToDate steady).1, by rw [point]; trivial⟩⟩
      rw [point]
      exact ⟨fits.1, fun earlier member => (fits.2 earlier member).trans rises⟩
  | load epoch =>
      rw [point] at fits
      obtain ⟨none, behind, earlier, here⟩ := fits
      refine ⟨whole, rising, known, ?_, fun steady => ⟨(upToDate steady).1, ?_⟩⟩
      · rw [point]
        exact ⟨none, behind.sendReplace rises, earlier, here⟩
      · rw [point]
        intro same
        exact absurd (same ▸ behind.seen_le) (Nat.not_succ_le_self _)
  | write left =>
      rw [point] at fits
      refine ⟨whole, rising, known, ?_, fun steady => ⟨(upToDate steady).1, ?_⟩⟩
      · rw [point]
        exact ⟨fits.1, fits.2.sendReplace rises⟩
      · rw [point]
        intro same
        exact absurd (same ▸ fits.2.seen_le) (Nat.not_succ_le_self _)
  | changed =>
      rw [point] at fits
      refine ⟨whole, rising, known, ?_, fun steady => ⟨(upToDate steady).1, ?_⟩⟩
      · rw [point]
        exact ⟨fits.1, fits.2.sendReplace rises⟩
      · rw [point]
        intro same
        exact absurd (same ▸ fits.2.seen_le) (Nat.not_succ_le_self _)
  | ended =>
      rw [point] at fits
      refine ⟨whole, rising, known, ?_, fun steady => ⟨(upToDate steady).1, by rw [point]; trivial⟩⟩
      rw [point]
      exact fun earlier member => (fits earlier member).trans rises.le

theorem Sound.close (sound : Sound epochRx Known Steady sender epochs rest) :
    Sound { epochRx with closed := true } Known Steady sender epochs rest := by
  obtain ⟨whole, rising, known, fits, upToDate⟩ := sound
  have closed {seen values} (behind : epochRx.Behind seen values) :
      Channel.Behind { epochRx with closed := true } seen values := ⟨behind.seen_le, behind.le, behind.lt⟩
  refine ⟨whole, rising, known, ?_, upToDate⟩
  cases point : sender.point with
  | borrow => rwa [point] at fits
  | load epoch =>
      rw [point] at fits
      exact ⟨fits.1, closed fits.2.1, fits.2.2⟩
  | write left =>
      rw [point] at fits
      exact ⟨fits.1, closed fits.2⟩
  | changed =>
      rw [point] at fits
      exact ⟨fits.1, closed fits.2⟩
  | ended => rwa [point] at fits

/-- A report is begun by loading the flag; every other step leaves the list of reports. -/
theorem Sound.run (sound : Sound epochRx Known Steady sender epochs rest) (known : Known epochRx.value)
    (taken : reportSenderStep epochRx sender .run = some after) :
    ∃ later left, Sound epochRx Known Steady after later left := by
  obtain ⟨whole, rising, reported, fits, upToDate⟩ := sound
  cases point : sender.point with
  | borrow =>
      rw [point] at fits
      obtain ⟨none, earlier⟩ := fits
      simp only [reportSenderStep, point, Option.some.injEq] at taken
      obtain rfl := taken
      exact ⟨epochs, rest, whole, rising, reported, ⟨none, Channel.behind_borrow earlier, earlier, known⟩,
        fun steady => ⟨(upToDate steady).1, fun _ => rfl⟩⟩
  | load epoch =>
      rw [point] at fits upToDate
      obtain ⟨rfl, behind, earlier, here⟩ := fits
      simp only [reportSenderStep, point, Option.some.injEq] at taken
      obtain rfl := taken
      cases flag : sender.shouldReport with
      | true =>
          refine ⟨epochs ++ [epoch], encode (.report epoch), ?_, ?_, ?_, ⟨rfl, behind⟩, fun steady =>
            ⟨rfl, fun same => ?_⟩⟩
          · rw [reports_concat, whole, List.append_nil]
          · rw [List.pairwise_append]
            refine ⟨rising, List.pairwise_singleton _ _, fun one member other last => ?_⟩
            obtain rfl := List.mem_singleton.mp last
            exact earlier one member
          · intro one member
            rcases List.mem_append.mp member with old | last
            · exact reported one old
            · obtain rfl := List.mem_singleton.mp last
              exact here
          · rw [← (upToDate steady).2 same]
            exact List.mem_append_right _ List.mem_cons_self
      | false =>
          refine ⟨epochs, [], whole, rising, reported,
            ⟨rfl, behind.subset (List.subset_append_left _ _)⟩, fun steady => ?_⟩
          rw [(upToDate steady).1] at flag
          cases flag
  | write left =>
      rw [point] at fits upToDate
      obtain ⟨rfl, behind⟩ := fits
      cases rest with
      | nil =>
          simp only [reportSenderStep, point, Option.some.injEq] at taken
          obtain rfl := taken
          exact ⟨epochs, [], whole, rising, reported, ⟨rfl, behind⟩, upToDate⟩
      | cons byte more =>
          simp only [reportSenderStep, point] at taken
          cases taken
  | changed =>
      rw [point] at fits
      obtain ⟨none, behind⟩ := fits
      simp only [reportSenderStep, point] at taken
      cases woken : epochRx.changed sender.seen with
      | none => simp [woken] at taken
      | some result =>
          cases result with
          | ok version =>
              simp only [woken, Option.some.injEq] at taken
              obtain rfl := taken
              exact ⟨epochs, rest, whole, rising, reported, ⟨none, (behind.changed woken).2⟩,
                fun steady => ⟨(upToDate steady).1, trivial⟩⟩
          | error gone =>
              simp only [woken, Option.some.injEq] at taken
              obtain rfl := taken
              exact ⟨epochs, rest, whole, rising, reported, behind.le,
                fun steady => ⟨(upToDate steady).1, trivial⟩⟩
  | ended =>
      simp only [reportSenderStep, point] at taken
      cases taken

theorem Sound.ended (sound : Sound epochRx Known Steady sender epochs rest) :
    Sound epochRx Known Steady { sender with point := .ended } epochs rest :=
  ⟨sound.whole, sound.rising, sound.known, sound.le_value, fun steady => ⟨(sound.upToDate steady).1, trivial⟩⟩

theorem Sound.take {count : Nat} (sound : Sound epochRx Known Steady sender epochs rest)
    (taken : reportSenderStep epochRx sender (.take count) = some after) :
    Sound epochRx Known Steady after epochs (rest.drop count) := by
  obtain ⟨whole, rising, reported, fits, upToDate⟩ := sound
  cases point : sender.point with
  | write left =>
      rw [point] at fits upToDate
      obtain ⟨rfl, behind⟩ := fits
      simp only [reportSenderStep, point] at taken
      split at taken
      · obtain rfl := Option.some.inj taken
        refine ⟨?_, rising, reported, ⟨rfl, behind⟩, upToDate⟩
        rw [List.append_assoc, List.take_append_drop]
        exact whole
      · cases taken
  | borrow => simp [reportSenderStep, point] at taken
  | load epoch => simp [reportSenderStep, point] at taken
  | changed => simp [reportSenderStep, point] at taken
  | ended => simp [reportSenderStep, point] at taken

theorem Sound.step {event : Event} (sound : Sound epochRx Known Steady sender epochs rest)
    (known : Known epochRx.value) (steady : Steady → event ≠ .setShouldReport false)
    (taken : reportSenderStep epochRx sender event = some after) :
    ∃ later left, Sound epochRx Known Steady after later left := by
  cases event with
  | run => exact sound.run known taken
  | take count => exact ⟨epochs, _, sound.take taken⟩
  | fail =>
      rw [reportSenderStep] at taken
      split at taken
      · obtain rfl := Option.some.inj taken
        exact ⟨epochs, rest, sound.ended⟩
      · cases taken
  | abort =>
      obtain rfl := Option.some.inj taken
      exact ⟨epochs, rest, sound.ended⟩
  | setShouldReport value =>
      obtain rfl := Option.some.inj taken
      refine ⟨epochs, rest, sound.whole, sound.rising, sound.known, sound.fits, fun always => ⟨?_, ?_⟩⟩
      · cases value with
        | true => rfl
        | false => exact absurd rfl (steady always)
      · exact (sound.upToDate always).2

end Sound

end QuicMls.ReportSender
