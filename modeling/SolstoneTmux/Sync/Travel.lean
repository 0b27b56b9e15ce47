import SolstoneTmux.Finalize
import SolstoneTmux.Sync.Candidate

/-!
# Sweeps beside a finalization

While `SegmentState.finalize` closes a segment, the uploader may sweep. `SweptSegment.act` is one step of a
sweep about the segment: it is scanned and resolved, its receipt is looked for, its zone record is
loaded, it is uploaded, the receipt is written, its directory is deleted and then its zone record.
A step that is not due does nothing. `closing` is the finalization with any steps of sweeps before
each of its calls.

All calls of a sweep work. The removal of the segment's files and directory is one step
(`deleteRevalidatedSegment`), and of the ledger only the receipt is kept. `SweptSegment.zoned` and
`Upload.late` are beside the program: they say whether the finalization has written the zone record,
and whether it had done so when the zone of an upload was loaded.
-/

namespace SolstoneTmux

open Foundations Foundations.Prog

/-! ## Reading the zone record -/

/-- `CaptureTimeLoad`. -/
inductive CaptureTimeLoad
  | absent
  | present (time : CaptureTime)
  | unreadable
  deriving DecidableEq

/-- `load_capture_time`, on what is under the path. `parse` is what `serde_json` makes of a file
that the program did not write. -/
def loadCaptureTime (parse : Bytes → Option CaptureTime) :
    Option (Node Contents SegmentDir) → CaptureTimeLoad
  | none => .absent
  | some (.file (.captureTime time)) => .present time
  | some (.file (.bytes b)) =>
    match parse b with
    | some time => .present time
    | none => .unreadable
  | some _ => .unreadable

/-- The zone that a sweep uploads after a load. -/
def CaptureTimeLoad.meta : CaptureTimeLoad → Option CaptureTime
  | present time => some time
  | absent | unreadable => none

/-! ## Sweeps -/

/-- The two passes of a sweep. -/
inductive SweepPass
  | localFinish
  | candidates
  deriving DecidableEq

/-- Where a sweep stands with the segment. `idle` is also a sweep that is done with it. -/
inductive SweepPhase
  | idle
  | listed (pass : SweepPass)
  | found (pass : SweepPass)
  | emptied
  | unacknowledged
  | loaded (zone : Option CaptureTime) (late : Bool)
  | answered
  | acknowledged
  | removed (acknowledged : Bool)
  deriving DecidableEq

/-- An upload: the zone it carried, and whether that was loaded after the finalization had written
the record. -/
structure Upload where
  zone : Option CaptureTime
  late : Bool
  deriving DecidableEq

/-- A step of a sweep. `valid` says whether a receipt in the ledger is for this journal and these
files, and `confirmed` whether the journal acknowledged the upload. -/
inductive SweepAct
  | scan (pass : SweepPass)
  | resolve
  | readReceipt (valid : Bool)
  | load
  | upload (confirmed : Bool)
  | writeReceipt
  | delete
  | removeZone
  | leave

/-- A stream directory with the sweep of one segment; `settled` once the segment was removed after
it had been acknowledged. -/
structure SweptSegment where
  dir : StreamDir
  zoned : Bool
  phase : SweepPhase
  receipt : Bool
  uploads : List Upload
  settled : Bool

namespace SweptSegment

/-- The start: no sweep has seen the segment. -/
def start (dir : StreamDir) : SweptSegment := ⟨dir, false, .idle, false, [], false⟩

section Acts

variable (parse : Bytes → Option CaptureTime) (segment : Str)

/-- What `resolve_segment_files` finds leads to. -/
def resolved (pass : SweepPass) : Option SegmentDir → SweepPhase
  | none => .idle
  | some members =>
    match resolveEntries segment members.toList, pass with
    | .found _, pass => .found pass
    | .empty, .localFinish => .emptied
    | _, _ => .idle

/-- What a receipt that is there or not leads to. -/
def receiptRead : SweepPass → Bool → SweepPhase
  | .localFinish, true => .acknowledged
  | .candidates, false => .unacknowledged
  | _, _ => .idle

/-- One step of a sweep. -/
def act (a : SweepAct) (w : SweptSegment) : SweptSegment :=
  match a, w.phase with
  | .scan pass, .idle =>
    if validSegmentName segment && (segmentMembers w.dir (.str segment)).isSome then
      { w with phase := .listed pass }
    else w
  | .resolve, .listed pass =>
    { w with phase := resolved segment pass (segmentMembers w.dir (.str segment)) }
  | .readReceipt valid, .found pass =>
    { w with phase := receiptRead pass (w.receipt && valid) }
  | .load, .unacknowledged =>
    { w with
      phase := .loaded (loadCaptureTime parse w.dir[captureTimePath segment]?).meta w.zoned }
  | .upload confirmed, .loaded zone late =>
    { w with
      phase := if confirmed then .answered else .idle
      uploads := w.uploads ++ [⟨zone, late⟩] }
  | .writeReceipt, .answered => { w with phase := .acknowledged, receipt := true }
  | .delete, .acknowledged =>
    match segmentMembers w.dir (.str segment) with
    | none => { w with phase := .idle }
    | some members =>
      match resolveEntries segment members.toList with
      | .found _ => { w with dir := w.dir.erase (.str segment), phase := .removed true }
      | _ => { w with phase := .idle }
  | .delete, .emptied =>
    match withoutDir (.str segment) w.dir with
    | (.error .other, _) => { w with phase := .idle }
    | (_, dir) => { w with dir := dir, phase := .removed false }
  | .removeZone, .removed acknowledged =>
    { w with
      dir := (unlinked (captureTimePath segment) w.dir).2
      phase := .idle
      receipt := false
      settled := w.settled || acknowledged }
  | .leave, .removed _ => w
  | .leave, _ => { w with phase := .idle }
  | _, _ => w

end Acts

/-! ## The finalization among sweeps -/

/-- What a call of the finalization leaves. It writes the zone record before it removes the
metadata. -/
def called (stem segment : Str) (dir : StreamDir) (w : SweptSegment) : SweptSegment :=
  { w with
    dir := dir
    zoned := w.zoned || dir[captureTimePath segment]? ≠ w.dir[captureTimePath segment]? ||
      dir[OsName.str (incompleteMetaName stem)]?.isNone }

/-- A program on the stream directory, with sweeps before each of its calls. -/
def beside {ε α : Type} (parse : Bytes → Option CaptureTime) (stem segment : Str)
    (p : Prog StreamDir Turn ε α) : Prog SweptSegment (List SweepAct × Turn) ε α :=
  p.among (fun acts w => acts.foldl (fun w a => w.act parse segment a) w) dir (called stem segment)

end SweptSegment

end SolstoneTmux
