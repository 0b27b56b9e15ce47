import SolstoneTmux.ActivityLinger
import SolstoneTmux.Foundations.Notify
import SolstoneTmux.Segment
import SolstoneTmux.Sync.JournalError

/-!
# The sync scheduler

`SyncScheduler` is the loop of `run_with_shutdown` with what it shares with others: the flag that
closed segments raise (`SyncWake`), the shutdown channel, and the clocks. A step is one of the
scheduler between two awaits, one of a party that closes segments, or time that passes. A write
of the health file may fail, and the loop goes on all the same.

The loop sweeps while a sweep is requested; after a failure it waits for the deadline of its
`Backoff`, and without a request it rests. Both waits are a biased `select!` (`WaitRound`): a round polls
the shutdown channel, the flag, the periodic timer, the deadline and the sleep watch in this order, and
the first that is ready ends it.

Beside the program are `closes`, the closes so far, `covered`, those before the start of the last
sweep that ended without failure, and `events`, the requests to the journal and what ended them, with
their times, newest first.
-/

namespace SolstoneTmux

open Foundations

/-- Nanoseconds of a second. -/
def second : ℕ := 1000000000

/-! ## Waiting before a retry -/

/-- `RETRY_DELAYS`. -/
def retryDelays : Fin 4 → ℕ
  | 0 => 5 * second
  | 1 => 30 * second
  | 2 => 120 * second
  | 3 => 300 * second

/-- `PERIODIC_SYNC_INTERVAL`. -/
def periodicSyncInterval : ℕ := 60 * second

/-- `WAKE_WATCH_INTERVAL`. -/
def wakeWatchInterval : ℕ := 5 * second

/-- `WAKE_GAP`. -/
def wakeGap : ℕ := 5 * second

/-- `CANDIDATES_PER_BATCH`. -/
def candidatesPerBatch : ℕ := 8

/-- `Backoff`; its index is one of a delay. -/
structure Backoff where
  nextDelay : Fin 4
  deadline : Option ℕ

namespace Backoff

/-- `Backoff::new`. -/
def new : Backoff := ⟨0, none⟩

/-- `Backoff::successful_operation`. -/
def successfulOperation (_ : Backoff) : Backoff := ⟨0, none⟩

/-- The index of the delay after this one, at most the last. -/
def later (i : Fin 4) : Fin 4 := ⟨min (i + 1) 3, Nat.lt_succ_of_le (Nat.min_le_right _ _)⟩

/-- `Backoff::failed_operation`. -/
def failedOperation (backoff : Backoff) (now : ℕ) : Backoff where
  nextDelay := later backoff.nextDelay
  deadline := some (now + retryDelays backoff.nextDelay)

/-- `Backoff::deadline_reached`. -/
def deadlineReached (backoff : Backoff) : Backoff := { backoff with deadline := none }

end Backoff

/-- `slept_between`; the two clocks in nanoseconds, the wall clock first. -/
def sleptBetween (before after : ℤ × ℕ) : Bool :=
  after.1 - before.1 > ((after.2 - before.2 + wakeGap : ℕ) : ℤ)

/-- The next tick of an interval that skips the ticks it missed. -/
def nextTick (due now period : ℕ) : ℕ :=
  if due + 5000000 < now then now + period - (now - due) % period else due + period

/-! ## The wake-up -/

/-- `SyncWake`. -/
abbrev SyncWake := Flagged

/-- `SyncWake::segment_closed`, its first step; whether it takes its second. -/
def SyncWake.segmentClosed (wake : SyncWake) : SegmentClose → SyncWake
  | .finalized _ => Flagged.raise wake
  | .removedEmpty => wake

/-! ## Sweeps -/

/-- `SyncSweepSummary`; the summary of a cancelled sweep is not read further. -/
structure SyncSweepSummary where
  attempted : ℕ
  contacted : Bool
  custodied : ℕ
  failure : Option SyncFailureClass
  diagnostic : Option DiagnosticCode

/-- `SyncSweepSummary::empty`. -/
def SyncSweepSummary.empty : SyncSweepSummary := ⟨0, false, 0, none, none⟩

/-- The second pass of a sweep: the wall time of its start, the uploads that are left, those of the
batch so far, the acknowledgements in a row that could not be written, and the activity guard. -/
structure UploadPass where
  now : ℤ
  dues : List Due
  inBatch : ℕ
  ackErrors : ℕ
  working : Bool
  summary : SyncSweepSummary

/-- Where a sweep stands: its local removals, its scan and first pass, before an upload, while an
upload is in flight, after the last upload of a batch, or while a status check is in flight. -/
inductive SweepPlace
  | finishing
  | looking
  | uploading (pass : UploadPass)
  | asking (pass : UploadPass) (due : Due)
  | batchEnd (pass : UploadPass)
  | checking (summary : SyncSweepSummary)

/-! ## The health file -/

/-- The health file of a run of the service: the last report that was made of its facts, the one the
file holds, and whether the last write worked. -/
structure HealthFile where
  report : Option (ℕ × SyncFacts)
  held : Option (ℕ × SyncFacts)
  worked : Bool
  held_of_worked : worked = true → held = report

namespace HealthFile

/-- The run has not written its file. -/
def unwritten : HealthFile := ⟨none, none, true, fun _ => rfl⟩

/-- `HealthWriter::write`: a write that fails leaves the report from before. -/
def write (file : HealthFile) (works : Bool) (now : ℕ) (facts : SyncFacts) : HealthFile where
  report := some (now, facts)
  held := if works then some (now, facts) else file.held
  worked := works
  held_of_worked hworks := if_pos hworks

end HealthFile

/-! ## The loop -/

/-- The two waits of the loop. -/
inductive Wait
  | backingOff (deadline : ℕ)
  | resting

/-- A round of polls: it begins, it looks at the flag, it looks at the timers, or it is over and
nothing was ready. -/
inductive WaitRound
  | begun
  | listening
  | unready
  | parked

/-- Where the loop stands; `watch` is when the sleep watch looks at the clocks again, if it was polled
in this wait, and `seen` is the number of closes before the sweep. -/
inductive LoopPlace
  | top
  | finishing (deadline : ℕ)
  | waiting (wait : Wait) (round : WaitRound) (watch : Option ℕ)
  | sweeping (seen : ℕ) (sweep : SweepPlace)
  | ended (seen : ℕ) (summary : SyncSweepSummary)
  | settling (seen : ℕ) (summary : SyncSweepSummary)
  | returned
  | aborted

/-- What is seen of the scheduler. -/
inductive SyncEvent
  | asked
  | answered
  | failed
  | woke
  deriving DecidableEq

/-- `SyncScheduler` in its loop; `healthWorks` says of each write of the health file whether it
works, and `healthWrites` counts them. -/
structure SyncScheduler where
  now : ℕ
  wall : ℤ
  shutdown : Bool
  wake : SyncWake
  requested : Bool
  backoff : Backoff
  periodic : ℕ
  sleepWatch : ℤ × ℕ
  facts : SyncFacts
  activity : SyncActivity
  state : SyncState
  health : HealthFile
  healthWrites : ℕ
  healthWorks : ℕ → Bool
  place : LoopPlace
  closes : ℕ
  covered : ℕ
  events : List (ℕ × SyncEvent)

namespace SyncScheduler

/-- `OffsetDateTime::unix_timestamp` of the wall clock. -/
def unixNow (s : SyncScheduler) : ℤ := s.wall / second

/-- The clocks of the sleep watch. -/
def clocks (s : SyncScheduler) : ℤ × ℕ := (s.wall, s.now)

/-- An event that is seen now. -/
def note (s : SyncScheduler) (event : SyncEvent) : SyncScheduler :=
  { s with events := (s.now, event) :: s.events }

/-- `write_health`, which does not look at how the write ends. -/
def writeHealth (s : SyncScheduler) : SyncScheduler :=
  { s with
    health := s.health.write (s.healthWorks s.healthWrites) s.now s.facts
    healthWrites := s.healthWrites + 1 }

/-- `begin_episode`, which follows a sleep that was noticed. -/
def beginEpisode (s : SyncScheduler) : SyncScheduler :=
  { s.note .woke with facts := { s.facts with episodeStarted := some s.unixNow } }

/-- `SyncScheduler::new` and the start of `run_with_shutdown`. -/
def start (identity : JournalIdentity) (ledger : SegmentCandidate → Option StateRecord) (now : ℕ)
    (wall : ℤ) (shutdown : Bool) (wake : SyncWake) (healthWorks : ℕ → Bool) (closes : ℕ) :
    SyncScheduler where
  now := now
  wall := wall
  shutdown := shutdown
  wake := wake
  requested := true
  backoff := .new
  periodic := now + periodicSyncInterval
  sleepWatch := (wall, now)
  facts :=
    { paired := true
      held := false
      syncInProgress := false
      pendingSegments := 0
      lastSuccessfulContact := none
      lastSuccessfulSync := none
      recentErrorCount := 0
      lastErrorCode := none
      episodeStarted := some (wall / second) }
  activity := .idle
  state := .start identity ledger
  health := .unwritten
  healthWrites := 0
  healthWorks := healthWorks
  place := .top
  closes := closes
  covered := 0
  events := []

/-! ### Sweeps -/

/-- A request to the journal was answered. -/
def answered (s : SyncScheduler) : SyncScheduler :=
  { s.note .answered with backoff := s.backoff.successfulOperation }

/-- The activity guard is dropped, if there is one. -/
def dropGuard (s : SyncScheduler) (guard : Bool) : SyncScheduler :=
  { s with activity := if guard then .idle else s.activity }

/-- `end_sweep`, after the activity guard is dropped. -/
def endSweep (s : SyncScheduler) (seen : ℕ) (guard : Bool) (summary : SyncSweepSummary)
    (error : SyncOperationError) : SyncScheduler :=
  let summary := match error with
    | .retainCandidate diagnostic _ =>
      { summary with diagnostic := some diagnostic, failure := some .contract }
    | .segmentRemoved => { summary with failure := some .contract }
    | .endSweep failure => { summary with failure := some failure }
    | .endSweepDiagnostic failure code =>
      { summary with diagnostic := some code, failure := some failure }
  { (s.dropGuard guard).note .failed with
    backoff := s.backoff.failedOperation s.now
    place := .ended seen summary }

/-- `cancelled_sweep_with_activity`, and the return of the loop. -/
def cancelledSweep (s : SyncScheduler) (guard : Bool) : SyncScheduler :=
  { { s.dropGuard guard with facts := { s.facts with syncInProgress := false } }.writeHealth with
    place := .returned }

/-- The ledgers that local removals remove. -/
def forget (s : SyncScheduler) (candidates : List SegmentCandidate) : SyncScheduler :=
  { s with state := candidates.foldl (fun state candidate => state.step (.forget candidate)) s.state }

/-- The candidates that a first pass finds without an acknowledgement. -/
def nonAcked (visits : List Visit) : ℕ :=
  (visits.filter fun visit => match visit.sight with
    | .unusable | .pending _ => true
    | .gone | .acknowledged => false).length

/-- The diagnostic of a first pass. -/
def passDiagnostic (visits : List Visit) : Option DiagnosticCode :=
  if visits.any fun visit => visit.sight matches .unusable then some .localSegmentInvalid else none

/-- The first pass of a sweep, and the status check or the start of the second. -/
def firstPass (s : SyncScheduler) (seen : ℕ) (visits : List Visit) : SyncScheduler :=
  let summary := { SyncSweepSummary.empty with diagnostic := passDiagnostic visits }
  let facts := { s.facts with pendingSegments := nonAcked visits }
  match s.state.uploadDue s.unixNow visits with
  | [] =>
    { s.note .asked with
      facts := facts
      place := .sweeping seen (.checking summary) }
  | due :: dues =>
    { { s with facts := { facts with syncInProgress := true } }.writeHealth with
      place := .sweeping seen (.uploading ⟨s.unixNow, due :: dues, 0, 0, false, summary⟩) }

/-- The upload after this one, or the end of the batch. -/
def nextUpload (s : SyncScheduler) (seen : ℕ) (pass : UploadPass) : SyncScheduler :=
  let pass := { pass with inBatch := pass.inBatch + 1 }
  if pass.dues.isEmpty ∨ pass.inBatch = candidatesPerBatch then
    { s with place := .sweeping seen (.batchEnd pass) }
  else { s with place := .sweeping seen (.uploading pass) }

/-- What follows an acknowledgement, with or without a receipt. -/
def acknowledged (s : SyncScheduler) (seen : ℕ) (pass : UploadPass) (receipt ackWritten : Bool) :
    SyncScheduler :=
  if ackWritten then
    let facts := if receipt then s.facts.successfulContact s.unixNow else s.facts
    { s with facts := { facts with pendingSegments := facts.pendingSegments - 1 } }.nextUpload seen
      { pass with
        ackErrors := 0
        summary :=
          { pass.summary with custodied := pass.summary.custodied + if receipt then 1 else 0 } }
  else
    s.nextUpload seen
      { pass with
        ackErrors := pass.ackErrors + 1
        summary :=
          { pass.summary with
            diagnostic :=
              if 3 ≤ pass.ackErrors + 1 then some .privateStateIo else pass.summary.diagnostic } }

/-- The answer to an upload, as the ledger sees it. -/
def replyAnswer : Except SyncOperationError UploadResult → UploadAnswer
  | .ok upload => .result upload
  | .error error => error.answer

/-- An upload that was answered; the writes that follow end as `turn` says. -/
def uploaded (s : SyncScheduler) (seen : ℕ) (pass : UploadPass) (due : Due)
    (reply : Except SyncOperationError UploadResult) (turn : UploadTurn) : SyncScheduler :=
  let turn := { turn with answer := replyAnswer reply }
  let contacted := { pass with summary := { pass.summary with contacted := true } }
  let after := { s.answered with state := (s.state.upload pass.now due turn).getD s.state }
  match reply with
  | .ok upload =>
    match assessReceipt upload due.files with
    | .valid _ => after.acknowledged seen contacted true turn.ackWritten
    | .invalid _ | .absent => after.nextUpload seen contacted
  | .error (.retainCandidate diagnostic _) =>
    after.nextUpload seen
      { contacted with summary := { contacted.summary with diagnostic := some diagnostic } }
  | .error .segmentRemoved => after.acknowledged seen contacted false turn.ackWritten
  | .error (.endSweep failure) => s.endSweep seen pass.working pass.summary (.endSweep failure)
  | .error (.endSweepDiagnostic failure code) =>
    s.endSweep seen pass.working pass.summary (.endSweepDiagnostic failure code)

/-- The answer to the status check. -/
def checked (s : SyncScheduler) (seen : ℕ) (summary : SyncSweepSummary) :
    Except SyncOperationError Unit → SyncScheduler
  | .ok () => { s.answered with place := .ended seen { summary with contacted := true } }
  | .error error => s.endSweep seen false summary error

/-- `diagnostic_for_failure`. -/
def diagnosticForFailure : SyncFailureClass → DiagnosticCode
  | .direct => .journalUnavailable
  | .relay => .journalUnavailable
  | .auth => .journalRevoked
  | .timeout => .journalTimeout
  | .contract => .journalContractInvalid

/-- `update_facts`. -/
def updateFacts (s : SyncScheduler) (summary : SyncSweepSummary) : SyncScheduler :=
  let facts :=
    if 0 < summary.custodied then s.facts.successfulSync s.unixNow
    else if summary.contacted then s.facts.successfulContact s.unixNow
    else s.facts
  let facts := match summary.diagnostic, summary.failure with
    | some code, _ => facts.failed code
    | none, some failure => facts.failed (diagnosticForFailure failure)
    | none, none => facts
  { s with facts := { facts with syncInProgress := false } }

/-! ### Waits -/

/-- What ends a wait. -/
inductive Branch
  | closed
  | ticked
  | deadline
  | slept

/-- The end of a wait: its futures are dropped, and its branch runs. -/
def ready (s : SyncScheduler) (wait : Wait) (branch : Branch) : SyncScheduler :=
  let s := { s with wake := Flagged.leave s.wake, place := .top }
  match wait, branch with
  | .resting, .slept => { s.beginEpisode with requested := true }
  | .resting, _ => { s with requested := true }
  | .backingOff _, .closed => s
  | .backingOff _, .ticked => s.writeHealth
  | .backingOff _, .deadline => { s with backoff := s.backoff.deadlineReached }
  | .backingOff _, .slept => { s.beginEpisode with backoff := s.backoff.deadlineReached }

/-- A step of `SyncWake::wait`. -/
def listen (s : SyncScheduler) (wait : Wait) (watch : Option ℕ) : SyncScheduler :=
  let (closed, wake) := Flagged.advance s.wake
  let s := { s with wake := wake }
  if closed then s.ready wait .closed
  else if wake.phase = .waiting then { s with place := .waiting wait .unready watch }
  else s

/-- `SleepWatch::wait`, polled. -/
def watchSleep (s : SyncScheduler) (wait : Wait) (watch : Option ℕ) : SyncScheduler :=
  if watch.any (s.now < ·) then { s with place := .waiting wait .parked watch }
  else if sleptBetween s.sleepWatch s.clocks then
    { s with sleepWatch := s.clocks }.ready wait .slept
  else
    { s with
      sleepWatch := s.clocks
      place := .waiting wait .parked (some (s.now + wakeWatchInterval)) }

/-- The timers of a wait, polled. -/
def expire (s : SyncScheduler) (wait : Wait) (watch : Option ℕ) : SyncScheduler :=
  if s.periodic ≤ s.now then
    { s with periodic := nextTick s.periodic s.now periodicSyncInterval }.ready wait .ticked
  else
    match wait with
    | .backingOff deadline =>
      if deadline ≤ s.now then s.ready wait .deadline else s.watchSleep wait watch
    | .resting => s.watchSleep wait watch

/-! ### Steps -/

/-- The end of a sweep in the loop. -/
def settle (s : SyncScheduler) (seen : ℕ) (summary : SyncSweepSummary) : SyncScheduler :=
  let (pending, wake) := Flagged.take s.wake
  { s with
    requested := summary.failure.isSome || pending
    wake := wake
    covered := if summary.failure.isSome then s.covered else seen
    place := .top }

/-- One step that needs nothing from outside. -/
def poll (s : SyncScheduler) : SyncScheduler :=
  match s.place with
  | .top =>
    if s.requested then
      match s.backoff.deadline with
      | some deadline => { s with place := .finishing deadline }
      | none => { s with place := .sweeping s.closes .finishing }
    else { s with place := .waiting .resting .begun none }
  | .waiting wait .begun watch =>
    if s.shutdown then { s with wake := Flagged.leave s.wake, place := .returned }
    else { s with place := .waiting wait .listening watch }
  | .waiting wait .listening watch => s.listen wait watch
  | .waiting wait .unready watch => s.expire wait watch
  | .waiting wait .parked watch => { s with place := .waiting wait .begun watch }
  | .sweeping seen (.uploading pass) =>
    if s.shutdown then s.cancelledSweep pass.working
    else
      match pass.dues with
      | [] => s
      | due :: dues =>
        { s.note .asked with
          activity := .working
          place := .sweeping seen (.asking
            { pass with
              dues := dues
              working := true
              summary := { pass.summary with attempted := pass.summary.attempted + 1 } } due) }
  | .sweeping seen (.batchEnd pass) =>
    let s := s.writeHealth
    if pass.dues.isEmpty then { s.dropGuard pass.working with place := .ended seen pass.summary }
    else if s.shutdown then s.cancelledSweep pass.working
    else { s with place := .sweeping seen (.uploading { pass with inBatch := 0 }) }
  | .ended seen summary => { (s.updateFacts summary).writeHealth with place := .settling seen summary }
  | .settling seen summary => s.settle seen summary
  | _ => s

/-- `local_finish` in a back-off, when it has visited every candidate. -/
def locallyFinished (s : SyncScheduler) (deadline : ℕ) : SyncScheduler :=
  if deadline ≤ s.now then
    { s with backoff := s.backoff.deadlineReached, place := .sweeping s.closes .finishing }
  else { s with place := .waiting (.backingOff deadline) .begun none }

/-- A scan that failed. -/
def scanFailed (s : SyncScheduler) (seen : ℕ) : SyncScheduler :=
  { s with facts := { s.facts with pendingSegments := 0 } }.endSweep seen false .empty
    (.endSweepDiagnostic .contract .localSegmentInvalid)

/-- A shutdown request is noticed here: in a sweep, before every candidate and with every request. -/
def looksAtShutdown : SweepPlace → Bool
  | .finishing | .looking | .asking _ _ | .checking _ => true
  | .uploading _ | .batchEnd _ => false

/-- A sweep holds the activity guard. -/
def guarded : SweepPlace → Bool
  | .uploading pass | .asking pass _ | .batchEnd pass => pass.working
  | .finishing | .looking | .checking _ => false

/-- The loop holds the activity guard. -/
def loopGuarded : LoopPlace → Bool
  | .sweeping _ sweep => guarded sweep
  | _ => false

/-- One step of the scheduler. What it reads of the file system and what the journal answers come
from outside. -/
inductive Own (s : SyncScheduler) : SyncScheduler → Prop
  | poll : Own s s.poll
  | finished (deadline : ℕ) (candidates : List SegmentCandidate)
      (hplace : s.place = .finishing deadline) :
      Own s ((s.forget candidates).locallyFinished deadline)
  | stopped (deadline : ℕ) (candidates : List SegmentCandidate)
      (hplace : s.place = .finishing deadline) (hshutdown : s.shutdown = true) :
      Own s { s.forget candidates with place := .returned }
  | removed (seen : ℕ) (candidates : List SegmentCandidate)
      (hplace : s.place = .sweeping seen .finishing) :
      Own s { s.forget candidates with place := .sweeping seen .looking }
  | scanFailed (seen : ℕ) (hplace : s.place = .sweeping seen .looking) : Own s (s.scanFailed seen)
  | looked (seen : ℕ) (visits : List Visit) (hnodup : (visits.map Visit.candidate).Nodup)
      (hplace : s.place = .sweeping seen .looking) : Own s (s.firstPass seen visits)
  | uploaded (seen : ℕ) (pass : UploadPass) (due : Due)
      (reply : Except SyncOperationError UploadResult) (turn : UploadTurn)
      (hplace : s.place = .sweeping seen (.asking pass due)) :
      Own s (s.uploaded seen pass due reply turn)
  | checked (seen : ℕ) (summary : SyncSweepSummary) (reply : Except SyncOperationError Unit)
      (hplace : s.place = .sweeping seen (.checking summary)) : Own s (s.checked seen summary reply)
  | cancelled (seen : ℕ) (sweep : SweepPlace) (candidates : List SegmentCandidate)
      (hplace : s.place = .sweeping seen sweep) (hsweep : looksAtShutdown sweep = true)
      (hshutdown : s.shutdown = true) :
      Own s ((s.forget candidates).cancelledSweep (guarded sweep))

/-- One step of what is around the scheduler: time passes, and the wall clock may be set; a shutdown
is requested; a closed segment is reported, in two steps; the task is aborted at an await. -/
inductive Outside (s : SyncScheduler) : SyncScheduler → Prop
  | passed (elapsed : ℕ) (wall : ℤ) : Outside s { s with now := s.now + elapsed, wall := wall }
  | shutdown : Outside s { s with shutdown := true }
  | closed (close : SegmentClose) :
      Outside s
        { s with
          wake := SyncWake.segmentClosed s.wake close
          closes := s.closes + if close matches .finalized _ then 1 else 0 }
  | signalled (hraising : 0 < s.wake.raising) : Outside s { s with wake := Flagged.signal s.wake }
  | aborted (hphase : s.wake.phase = .away ∨ s.wake.phase = .waiting) (hplace : s.place ≠ .returned) :
      Outside s
        { s.dropGuard (loopGuarded s.place) with
          wake := Flagged.leave s.wake
          place := .aborted }

/-- One step. -/
def Step (s s' : SyncScheduler) : Prop := Own s s' ∨ Outside s s'

/-- What the loop can reach; some segments may be closed before it starts, and any write of the
health file may fail. -/
inductive Reached (identity : JournalIdentity) (ledger : SegmentCandidate → Option StateRecord) :
    SyncScheduler → Prop
  | start (now : ℕ) (wall : ℤ) (shutdown : Bool) (wake : SyncWake) (healthWorks : ℕ → Bool)
      (closes : ℕ) (hwake : wake.Sound) (hphase : wake.phase = .away) :
      Reached identity ledger (start identity ledger now wall shutdown wake healthWorks closes)
  | step {s s' : SyncScheduler} (h : Reached identity ledger s) (hstep : Step s s') :
      Reached identity ledger s'

end SyncScheduler

end SolstoneTmux
