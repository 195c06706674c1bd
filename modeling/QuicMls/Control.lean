import QuicMls.Groups

/-! The report channel: control-message framing and one iteration of the loop
that trims the sender's log. -/
namespace QuicMls.Control
open BigEndian Groups

inductive ControlMessage where
  | report (epoch : UInt64)
  | hello
  deriving DecidableEq

def encode : ControlMessage → Bytes
  | .report epoch => 0x02 :: wordToBe epoch
  | .hello => [0x03]

inductive ReadError where
  | unexpectedEof
  | invalidData (message : String)
  deriving DecidableEq

/-- One message from the head of the stream, and what is left of it. -/
def readMessage : Bytes → Except ReadError (ControlMessage × Bytes)
  | [] => .error .unexpectedEof
  | msgType :: rest =>
      if msgType = 0x02 then
        if rest.length < 8 then .error .unexpectedEof
        else .ok (.report (wordFromBe (rest.take 8)), rest.drop 8)
      else if msgType = 0x03 then .ok (.hello, rest)
      else .error (.invalidData "Invalid message type")

/-- One iteration of `run_report_receiver`; `none` leaves the loop. -/
def reportReceiverStep {G : Type} (log : CommitLog G) (stream : Bytes) : Option (CommitLog G × Bytes) :=
  match readMessage stream with
  | .ok (.report k, rest) => some (log.trim k, rest)
  | .ok (.hello, rest) => some (log, rest)
  | .error _ => none

theorem readMessage_encode (message : ControlMessage) (rest : Bytes) :
    readMessage (encode message ++ rest) = .ok (message, rest) := by
  cases message with
  | report epoch =>
      have size := length_wordToBe epoch
      simp [encode, readMessage, List.take_left' size, List.drop_left' size]
  | hello => simp [encode, readMessage]

theorem reportReceiverStep_report {G : Type} (log : CommitLog G) (k : UInt64) (rest : Bytes) :
    reportReceiverStep log (encode (.report k) ++ rest) = some (log.trim k, rest) := by
  rw [reportReceiverStep, readMessage_encode]

end QuicMls.Control
