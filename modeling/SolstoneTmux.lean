import SolstoneTmux.ActivityLinger
import SolstoneTmux.Agreement
import SolstoneTmux.Calendar
import SolstoneTmux.Config
import SolstoneTmux.FailedAppends
import SolstoneTmux.Files
import SolstoneTmux.Finalize
import SolstoneTmux.Foundations.Codes
import SolstoneTmux.Foundations.Collect
import SolstoneTmux.Foundations.Events
import SolstoneTmux.Foundations.Glob
import SolstoneTmux.Foundations.Hosted
import SolstoneTmux.Foundations.Join
import SolstoneTmux.Foundations.JsonText
import SolstoneTmux.Foundations.Lease
import SolstoneTmux.Foundations.Lines
import SolstoneTmux.Foundations.Maintain
import SolstoneTmux.Foundations.Notify
import SolstoneTmux.Foundations.Program
import SolstoneTmux.Foundations.Relay
import SolstoneTmux.Foundations.Rows
import SolstoneTmux.Foundations.Table
import SolstoneTmux.Foundations.Text
import SolstoneTmux.FrameCodec
import SolstoneTmux.FrameReading
import SolstoneTmux.Health
import SolstoneTmux.Indicator
import SolstoneTmux.IndicatorEdits
import SolstoneTmux.IndicatorRuns
import SolstoneTmux.JournalVersion
import SolstoneTmux.KilledAppends
import SolstoneTmux.Log
import SolstoneTmux.Manager
import SolstoneTmux.Name
import SolstoneTmux.NamePath
import SolstoneTmux.Pairing.Answer
import SolstoneTmux.Pairing.Ceremony
import SolstoneTmux.Pairing.CeremonyRuns
import SolstoneTmux.Pairing.Endpoints
import SolstoneTmux.Pairing.Revocation
import SolstoneTmux.Pairing.Store
import SolstoneTmux.Pairing.StoreRuns
import SolstoneTmux.Poll
import SolstoneTmux.PostConnect
import SolstoneTmux.PostConnectRuns
import SolstoneTmux.ReadBack
import SolstoneTmux.Recovery.Captures
import SolstoneTmux.Recovery.Keeps
import SolstoneTmux.Recovery.Others
import SolstoneTmux.Recovery.Outcome
import SolstoneTmux.Recovery.Places
import SolstoneTmux.Recovery.Reading
import SolstoneTmux.Recovery.Recorded
import SolstoneTmux.Recovery.Recover
import SolstoneTmux.Recovery.Remnant
import SolstoneTmux.Recovery.Repaired
import SolstoneTmux.Recovery.Spared
import SolstoneTmux.Recovery.Tails
import SolstoneTmux.Recovery.Validate
import SolstoneTmux.Rotation
import SolstoneTmux.Segment
import SolstoneTmux.SegmentNames
import SolstoneTmux.SegmentOpening
import SolstoneTmux.SegmentOwners
import SolstoneTmux.Serialize
import SolstoneTmux.Service.Commits
import SolstoneTmux.Service.Controller
import SolstoneTmux.Service.ControllerRuns
import SolstoneTmux.Service.Definition
import SolstoneTmux.Service.Rendering
import SolstoneTmux.Storage.Append
import SolstoneTmux.Storage.Calls
import SolstoneTmux.Storage.Disturbed
import SolstoneTmux.Storage.Metadata
import SolstoneTmux.Supervision
import SolstoneTmux.Suppression
import SolstoneTmux.Sync.Acceptance
import SolstoneTmux.Sync.Candidate
import SolstoneTmux.Sync.Custody
import SolstoneTmux.Sync.CustodyRuns
import SolstoneTmux.Sync.Deferral
import SolstoneTmux.Sync.JournalError
import SolstoneTmux.Sync.Ledger
import SolstoneTmux.Sync.Receipt
import SolstoneTmux.Sync.Refusals
import SolstoneTmux.Sync.Removal
import SolstoneTmux.Sync.RemovalRuns
import SolstoneTmux.Sync.Scan
import SolstoneTmux.Sync.Scheduler
import SolstoneTmux.Sync.SchedulerHealth
import SolstoneTmux.Sync.SchedulerLedger
import SolstoneTmux.Sync.SchedulerRuns
import SolstoneTmux.Sync.Sweep
import SolstoneTmux.Sync.Travel
import SolstoneTmux.Sync.TravelRuns
import SolstoneTmux.Time
import SolstoneTmux.Tmux.Adapter
import SolstoneTmux.Tmux.Rosters
import SolstoneTmux.Tmux.Sessions
import SolstoneTmux.UploadStage
import SolstoneTmux.Writer
