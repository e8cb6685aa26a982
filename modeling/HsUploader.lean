import HsUploader.Delivery.Deletion
import HsUploader.Delivery.ExactlyOnce
import HsUploader.Core.Barrier
import HsUploader.Delivery.LocalRows
import HsUploader.Core.RetryQueue
import HsUploader.Core.OneProbe
import HsUploader.Delivery.SendRecord
import HsUploader.Delivery.LateRows
import HsUploader.Sources.Noninterference
import HsUploader.Sources.ProducerRule
import HsUploader.Sources.RiderWindow
import HsUploader.Delivery.Ceiling
import HsUploader.Daemon.Signature
import HsUploader.Daemon.Listing
import HsUploader.Daemon.Fresh
import HsUploader.Delivery.Neutral
import HsUploader.Sink.WriterOutage
import HsUploader.Watermark.Check
import HsUploader.Watermark.Schema
import HsUploader.Transports.Discard
import HsUploader.Transports.PskRows
import HsUploader.Daemon.CloseDiscipline
import HsUploader.SinkSwitch.RoundTrip
import HsUploader.SinkSwitch.Cache
import HsUploader.SinkSwitch.History
import HsUploader.Payload.PskParser
import HsUploader.Transports.WsprPost
import HsUploader.Transports.WsprdaemonNames
import HsUploader.Sources.FileProgress
import HsUploader.Sources.CursorOrder
import HsUploader.Sources.RiderGate
import HsUploader.Watermark.Attempts
import HsUploader.Daemon.GateJournal
import HsUploader.Cli.PurgeDeadLetters
import HsUploader.Backlog.Counts
import HsUploader.Delivery.SendLog
import HsUploader.Transports.PswsTree
import HsUploader.Transports.HeartbeatSftp
import HsUploader.Daemon.PumpLoop
import HsUploader.Transports.WsprdaemonUpload
import HsUploader.Cli.SinkStatus
