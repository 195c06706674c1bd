import QuicMls.BigEndian
import QuicMls.LengthFields
import QuicMls.Machine
import QuicMls.MessageStream
import QuicMls.LogShipping
import QuicMls.OrderedMap
import QuicMls.Groups
import QuicMls.CommitHistory
import QuicMls.CommitLogRuns
import QuicMls.CommitAtomicity
import QuicMls.Recording
import QuicMls.Budget
import QuicMls.Transcript
import QuicMls.TranscriptGrammar
import QuicMls.Preamble
import QuicMls.DatagramPacking
import QuicMls.ByteAccounting
import QuicMls.PointerWidth
import QuicMls.Control
import QuicMls.ReportStream
import QuicMls.CatchUp
import QuicMls.CommitWindow
import QuicMls.CatchUpSafety
import QuicMls.Recovery
import QuicMls.Convergence
import QuicMls.Injection
import QuicMls.Hkdf
import QuicMls.AesGcm
import QuicMls.PacketKey
import QuicMls.Retry
import QuicMls.HeaderKey
import QuicMls.PollRecv
import QuicMls.KeySchedule
import QuicMls.LabelEncoding
import QuicMls.PacketProtection
import QuicMls.Session
import QuicMls.HandshakeFailure
import QuicMls.HandshakeChunks
import QuicMls.SessionRuns
import QuicMls.Handshake
import QuicMls.Separation
import QuicMls.NonceReuse
import QuicMls.Reconnect
import QuicMls.KeyUpdate
import QuicMls.Rekey
import QuicMls.Contact
import QuicMls.Watch
import QuicMls.ReportSender
import QuicMls.ReportPipeline
import QuicMls.ReportRefinement
import QuicMls.ReportDelivery
import QuicMls.Telemetry
import QuicMls.AliceDriver
import QuicMls.AliceRuns
import QuicMls.TestbedLog
import QuicMls.TestbedSafety
import QuicMls.TestbedPace
import QuicMls.BobDriver
import QuicMls.BobRuns
import QuicMls.Harness
import QuicMls.HarnessLog
import QuicMls.HarnessTasks
import QuicMls.HarnessDelivery
import QuicMls.HarnessReady
import QuicMls.Csv
import QuicMls.Decimal
import QuicMls.SecurityBudget
import QuicMls.TelemetryCsv
