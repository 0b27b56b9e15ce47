import Mathlib.Logic.Function.Basic
import SolstoneTmux.Sync.Receipt

/-!
# Sweeps and their schedule

A sweep of the uploader looks at every candidate, leaves out those whose next attempt is in the
future, and uploads the others one by one. An answer that does not acknowledge a candidate sets its
next attempt, in the ledger's `state.json` and, when that cannot be written, in memory (`floors`).

`SyncState.sweep` is one sweep after its local removals; which candidates it finds, what the journal
answers and which writes fail is its input. `SyncState.recorded` is beside the program: the schedule
that the scheduler set last for a candidate that it has not acknowledged since.
-/

namespace SolstoneTmux

open Foundations

/-! ## The ledger -/

/-- `StateRecord`, without the fields that are only read to be dropped. -/
structure StateRecord where
  nextAttemptUnix : Option ℤ
  nextAttemptIntervalSeconds : Option ℕ
  answer : Option Str
  answerCount : ℕ
  journal : Option JournalIdentity
  deriving DecidableEq

/-- `StateRecord::default`. -/
def StateRecord.default : StateRecord := ⟨none, none, none, 0, none⟩

/-- A schedule: the wall time of the sweep that set it, and its interval. -/
structure Schedule where
  setAt : ℤ
  interval : ℕ
  deriving DecidableEq

/-- The next attempt of a schedule. -/
def Schedule.due (schedule : Schedule) : ℤ := schedule.setAt + schedule.interval

/-- How a write of a file ends: it works, it fails before the new content is there, or after. -/
inductive Write
  | done
  | failed
  | landed
  deriving DecidableEq

/-- A scheduler with its ledger. Of a floor the source keeps the due time alone. -/
structure SyncState where
  identity : JournalIdentity
  floors : SegmentCandidate → Option Schedule
  ledger : SegmentCandidate → Option StateRecord
  recorded : SegmentCandidate → Option Schedule

namespace SyncState

/-- A new scheduler for a journal, on a ledger. -/
def start (identity : JournalIdentity) (ledger : SegmentCandidate → Option StateRecord) :
    SyncState where
  identity := identity
  floors := fun _ => none
  ledger := ledger
  recorded := fun _ => none

/-- `read_state_record`, and the schedule of another journal dropped. -/
def readStateRecord (s : SyncState) (candidate : SegmentCandidate) : StateRecord :=
  let state := (s.ledger candidate).getD .default
  if state.journal ≠ some s.identity then { StateRecord.default with journal := some s.identity }
  else state

/-- The next attempt that the ledger sets, at most one interval ahead. -/
def diskNextAttempt (now : ℤ) (state : StateRecord) : Option ℤ :=
  state.nextAttemptUnix.map fun stored =>
    min stored (now + state.nextAttemptIntervalSeconds.getD 3600)

/-- The next attempt of a candidate. -/
def nextAttempt (now : ℤ) (s : SyncState) (candidate : SegmentCandidate) : ℤ :=
  match diskNextAttempt now (s.readStateRecord candidate), s.floors candidate with
  | some disk, some floor => max disk floor.due
  | some disk, none => disk
  | none, some floor => floor.due
  | none, none => 0

end SyncState

/-! ## The input of a sweep -/

/-- What a sweep finds of a candidate: no files, files that cannot be used, acknowledged files, or
files to upload. -/
inductive Sight
  | gone
  | unusable
  | acknowledged
  | pending (files : List LocalFile)

/-- A candidate of the scan, and what is found of it. -/
structure Visit where
  candidate : SegmentCandidate
  sight : Sight

/-- The journal's answer to an upload. `endSweep` stands for the errors that end a sweep. -/
inductive UploadAnswer
  | result (upload : UploadResult)
  | retain (answer : Str)
  | removed
  | endSweep

/-- An upload: its answer, and how the writes that follow end. -/
structure UploadTurn where
  answer : UploadAnswer
  stateWrite : Write
  ackWritten : Bool
  stateCleared : Write
  deleted : Bool

/-- The input of a sweep: the wall time, the candidates, and the uploads until it is cancelled. -/
structure SweepInput where
  now : ℤ
  visits : List Visit
  turns : List UploadTurn
  nodup : (visits.map Visit.candidate).Nodup

/-- An upload that is due, with the state read for it. -/
structure Due where
  candidate : SegmentCandidate
  files : List LocalFile
  state : StateRecord

/-! ## A sweep -/

/-- The interval after an answer that came a number of times in a row. -/
def retryInterval (count : ℕ) : ℕ := if 3 ≤ count then 86400 else 3600

/-- How often an answer came in a row, this time included. -/
def countAnswer (state : StateRecord) (answer : Str) : ℕ :=
  if state.answer = some answer then min (state.answerCount + 1) (2 ^ 32 - 1) else 1

/-- The state with an answer and its schedule. -/
def StateRecord.scheduled (state : StateRecord) (answer : Str) (count : ℕ) (schedule : Schedule) :
    StateRecord :=
  { state with
    nextAttemptUnix := some schedule.due
    nextAttemptIntervalSeconds := some schedule.interval
    answer := some answer
    answerCount := count }

namespace SyncState

/-- The first pass: the candidates whose next attempt has come. -/
def uploadDue (now : ℤ) (s : SyncState) : List Visit → List Due
  | [] => []
  | ⟨candidate, .pending files⟩ :: visits =>
    if now < s.nextAttempt now candidate then uploadDue now s visits
    else ⟨candidate, files, s.readStateRecord candidate⟩ :: uploadDue now s visits
  | _ :: visits => uploadDue now s visits

/-- A write of a candidate's state. -/
def writeStateRecord (s : SyncState) (candidate : SegmentCandidate) (record : StateRecord) :
    Write → SyncState
  | .failed => s
  | _ => { s with ledger := Function.update s.ledger candidate (some record) }

/-- A schedule that an answer set: written, or kept in memory when the write fails. -/
def setSchedule (s : SyncState) (due : Due) (answer : Str) (count : ℕ) (schedule : Schedule)
    (write : Write) : SyncState :=
  let s := s.writeStateRecord due.candidate (due.state.scheduled answer count schedule) write
  { s with
    floors :=
      if write = .done then s.floors else Function.update s.floors due.candidate (some schedule)
    recorded := Function.update s.recorded due.candidate (some schedule) }

/-- An answer that is counted. -/
def answered (s : SyncState) (now : ℤ) (due : Due) (answer : Str) (write : Write) : SyncState :=
  let count := countAnswer due.state answer
  s.setSchedule due answer count ⟨now, retryInterval count⟩ write

/-- What follows an acknowledgement, if it can be written. -/
def acknowledge (s : SyncState) (candidate : SegmentCandidate) (turn : UploadTurn) : SyncState :=
  if !turn.ackWritten then s
  else
    let s := s.writeStateRecord candidate .default turn.stateCleared
    { s with
      floors := Function.update s.floors candidate none
      ledger := if turn.deleted then Function.update s.ledger candidate none else s.ledger
      recorded := Function.update s.recorded candidate none }

/-- One upload of the second pass; `none` ends the sweep. -/
def upload (s : SyncState) (now : ℤ) (due : Due) (turn : UploadTurn) : Option SyncState :=
  match turn.answer with
  | .endSweep => none
  | .removed => some (s.acknowledge due.candidate turn)
  | .retain answer => some (s.answered now due answer turn.stateWrite)
  | .result result =>
    match assessReceipt result due.files with
    | .valid _ => some (s.acknowledge due.candidate turn)
    | .absent => some (s.answered now due "absent:descriptors_absent".toList turn.stateWrite)
    | .invalid .receivedNotWritten =>
      some (s.setSchedule due ("invalid:".toList ++ ReceiptFault.receivedNotWritten.asStr) 1
        ⟨now, 86400⟩ turn.stateWrite)
    | .invalid fault =>
      some (s.answered now due ("invalid:".toList ++ fault.asStr) turn.stateWrite)

/-- The second pass, until an answer ends it or it is cancelled. -/
def uploadAll (now : ℤ) : SyncState → List Due → List UploadTurn → SyncState
  | s, due :: dues, turn :: turns =>
    match s.upload now due turn with
    | none => s
    | some s => uploadAll now s dues turns
  | s, _, _ => s

/-- `run_sweep`, after its local removals. -/
def sweep (s : SyncState) (input : SweepInput) : SyncState :=
  uploadAll input.now s (s.uploadDue input.now input.visits) input.turns

/-- What happens to a scheduler and its ledger. -/
inductive Step
  | sweep (input : SweepInput)
  | forget (candidate : SegmentCandidate)
  | restart (identity : JournalIdentity)

/-- A sweep, the removal of a candidate's ledger, or a new scheduler. -/
def step (s : SyncState) : Step → SyncState
  | .sweep input => s.sweep input
  | .forget candidate => { s with ledger := Function.update s.ledger candidate none }
  | .restart identity => start identity s.ledger

/-- A scheduler after a run that began with an empty ledger. -/
def after (identity : JournalIdentity) (steps : List Step) : SyncState :=
  steps.foldl step (start identity fun _ => none)

end SyncState

end SolstoneTmux
