import SolstoneTmux.Name
import SolstoneTmux.Time
import SolstoneTmux.Storage.Append

/-!
# The open segment

`SegmentState` is the segment that the observer appends to. Its methods take the state and return
it together with their answer, since an error keeps the changes made before it.

A monotonic time or a `Duration` is a number of nanoseconds, and `hash` is the standard library's
default hasher, of which nothing is assumed.
-/

namespace SolstoneTmux

open Foundations Foundations.Prog

/-! ## Lengths and names -/

/-- `duration_nanos`. -/
def durationNanos (duration : ℕ) : ℕ := min duration u64Max

/-- The name of the directory of an open segment. -/
def incompleteName (stem : Str) : Str := stem ++ ".incomplete".toList

/-- The name of the metadata file of an open segment. -/
def incompleteMetaName (stem : Str) : Str := stem ++ ".incomplete.meta".toList

/-- `segment_stem`. The source panics where the suffix is missing. -/
def segmentStem (incomplete : Str) : Str :=
  (stripSuffix ".incomplete".toList incomplete).getD incomplete

/-- `segment_length`: whole seconds between one and the interval. -/
def segmentLength (elapsed segmentInterval : ℕ) : ℕ :=
  min (max (asSecs elapsed) 1) (max (asSecs segmentInterval) 1)

/-- `finalized_name`. -/
def finalizedName (stem : Str) (elapsed : ℕ) : Str :=
  stem ++ '_' :: padLeft 3 (decimal (asSecs elapsed))

/-- `record_length`. -/
def recordLength (m : SegmentMetadata) (elapsed segmentInterval : ℕ) : SegmentMetadata :=
  let length := segmentLength elapsed segmentInterval * nanosPerSecond
  { m with
    elapsedNanos := durationNanos length
    finalizedDir := finalizedName (segmentStem m.incompleteDir) length }

/-! ## State and errors -/

/-- `PathError`, as far as making a directory can raise it. -/
inductive PathError
  | invalidTarget (path : RelPath)
  | io (path : RelPath) (source : IoKind)

/-- `SegmentError`. A frame always serializes. -/
inductive SegmentError
  | path (error : PathError)
  | name (error : NameError)
  | storage (error : StorageError)
  | collision (path : RelPath)
  | io (operation : String) (path : RelPath) (source : IoKind)
  | poisoned
  | closed
  | notEmpty
  | frameIdOverflow
  | activityOffsetOverflow

/-- `SegmentError::is_recoverable_append`. -/
def SegmentError.isRecoverableAppend : SegmentError → Bool
  | storage (.recoverable _) => true
  | _ => false

/-- `AppendOutcome`. -/
inductive AppendOutcome
  | appended (frameId : ℕ)
  | unchanged
  deriving DecidableEq

/-- `SegmentClose`. -/
inductive SegmentClose
  | finalized (name : Str)
  | removedEmpty
  deriving DecidableEq

/-- `SegmentState`. -/
structure SegmentState where
  incompleteDir : Str
  metadataPath : Str
  metadata : SegmentMetadata
  storage : FileStorage
  digests : Table Str UInt64
  startMonotonic : ℕ
  segmentInterval : ℕ
  poisoned : Bool
  closed : Option SegmentClose
  deriving DecidableEq

namespace SegmentState

variable {ε : Type}

/-- The time since the segment's start, zero before it. -/
def elapsed (self : SegmentState) (nowMonotonic : ℕ) : ℕ := nowMonotonic - self.startMonotonic

/-! ## Creation -/

/-- `ensure_private_directory` of an entry of the stream directory. -/
def ensurePrivateDirectory (name : OsName) : Prog StreamDir Turn SegmentError Unit :=
  (symlinkMetadata name).bind fun
    | .ok node =>
      if node.isDir then call (fun k => .path (.io [name] k)) barrier
      else raise (.path (.invalidTarget [name]))
    | .error .notFound =>
      (call (fun k => .path (.io [name] k)) (createDir name)).bind fun _ =>
      call (fun k => .path (.io [name] k)) barrier
    | .error kind => raise (.path (.io [name] kind))

/-- The metadata a segment starts with. -/
def initialMetadata (stem : Str) (startWall : OffsetDateTime) (localOffset : UtcOffset)
    (tz : Option Str) (segmentInterval : ℕ) : SegmentMetadata :=
  recordLength
    { schemaVersion := SegmentMetadata.SCHEMA_VERSION
      lifecycle := .creating
      incompleteDir := incompleteName stem
      finalizedDir := []
      startWallUnixNanos := startWall.unixTimestampNanos
      localOffsetSeconds := localOffset.wholeSeconds
      tz := tz.filter fun name => !name.isEmpty
      elapsedNanos := 0
      lastDurableFrameId := 0
      durableFrameCount := 0
      hasDurableFrames := false
      activityDurableOffset := 0
      sessions := ∅ } 0 segmentInterval

/-- The state of a segment that was just created. -/
def initial (stem : Str) (m : SegmentMetadata) (startMonotonic segmentInterval : ℕ) :
    SegmentState where
  incompleteDir := incompleteName stem
  metadataPath := incompleteMetaName stem
  metadata := m
  storage :=
    { segmentDir := .str (incompleteName stem)
      metadataPath := .str (incompleteMetaName stem)
      handles := [] }
  digests := ∅
  startMonotonic := startMonotonic
  segmentInterval := segmentInterval
  poisoned := false
  closed := none

/-- `SegmentState::create`, in a stream directory. The first barrier stands for making that
directory private. -/
def create (stem : Str) (startWall : OffsetDateTime) (startMonotonic : ℕ)
    (localOffset : UtcOffset) (tz : Option Str) (segmentInterval : ℕ) : Prog StreamDir Turn SegmentError SegmentState :=
  let incompleteDir : OsName := .str (incompleteName stem)
  let metadataPath : OsName := .str (incompleteMetaName stem)
  let m := initialMetadata stem startWall localOffset tz segmentInterval
  (call (fun k => .path (.io [] k)) barrier).bind fun _ =>
  (entryVisible incompleteDir).bind fun dirExists =>
  if dirExists then raise (.collision [incompleteDir])
  else
    (entryVisible metadataPath).bind fun metaExists =>
    if metaExists then raise (.collision [incompleteDir])
    else
      ((atomicWriteMetadata metadataPath m).rethrow .storage).bind fun _ =>
      (ensurePrivateDirectory incompleteDir).bind fun _ =>
      ((syncDirectory []).rethrow .storage).bind fun _ =>
      ((atomicWriteMetadata metadataPath { m with lifecycle := .opened }).rethrow
        .storage).bind fun _ =>
      done (initial stem { m with lifecycle := .opened } startMonotonic segmentInterval)

/-! ## Appending -/

/-- `capture_digest`. -/
def captureDigest (hash : Str → UInt64) (capture : CaptureResult) : UInt64 :=
  let panes := capture.panes.insertionSort fun left right => strLe left.id right.id
  hash (List.intercalate ['\n'] (capture.window.id :: panes.map PaneInfo.content))

/-- The durable offset of a session that has a file, else zero. -/
def previousOffset (m : SegmentMetadata) (session : Str) : ℕ :=
  match m.sessions[session]? with
  | some s => s.durableOffset
  | none => 0

/-- The metadata after a frame of `length` bytes was appended for a session. -/
def proposedCapture (self : SegmentState) (session filename : Str) (frameId length nowMonotonic : ℕ) :
    SegmentMetadata :=
  let m := recordLength self.metadata (self.elapsed nowMonotonic) self.segmentInterval
  { m with
    lastDurableFrameId := frameId
    durableFrameCount := m.durableFrameCount + 1
    hasDurableFrames := true
    sessions := m.sessions.insert session
      { session := session
        filename := filename
        lastFrameId := frameId
        durableOffset := previousOffset self.metadata session + length } }

/-- `SegmentState::append_capture`. -/
def appendCapture (hash : Str → UInt64) (self : SegmentState) (capture : CaptureResult)
    (timestamp : F64Text) (nowMonotonic : ℕ) :
    Prog StreamDir Turn ε (SegmentState × Except SegmentError AppendOutcome) :=
  if self.poisoned then done (self, .error .poisoned)
  else if self.closed.isSome then done (self, .error .closed)
  else
    let digest := captureDigest hash capture
    if self.digests[capture.session]? = some digest then done (self, .ok .unchanged)
    else
      match deriveComponent capture.session with
      | .error e => done (self, .error (.name e))
      | .ok component =>
        let filename := component.sessionFilename
        let previous := previousOffset self.metadata capture.session
        let frameId := self.metadata.lastDurableFrameId + 1
        if u64Max < frameId then done (self, .error .frameIdOverflow)
        else
          let bytes := serializeFrame capture frameId timestamp
          (self.storage.appendFrame
            { filename := filename
              previousOffset := previous
              bytes := bytes
              proposedMetadata :=
                self.proposedCapture capture.session filename frameId bytes.length
                  nowMonotonic }).bind fun
            | (storage, .error e) =>
              done ({ self with storage := storage, poisoned := e.isPoisoned }, .error (.storage e))
            | (storage, .ok m) =>
              done
                ({ self with
                    storage := storage
                    metadata := m
                    digests := self.digests.insert capture.session digest },
                  .ok (.appended frameId))

/-- The metadata after `length` bytes of activity were appended. -/
def proposedActivity (self : SegmentState) (length nowMonotonic : ℕ) : SegmentMetadata :=
  recordLength
    { self.metadata with
      activityDurableOffset := self.metadata.activityDurableOffset + length }
    (self.elapsed nowMonotonic) self.segmentInterval

/-- `SegmentState::append_activity`. -/
def appendActivity (self : SegmentState) (bytes : Bytes) (nowMonotonic : ℕ) :
    Prog StreamDir Turn ε (SegmentState × Except SegmentError Unit) :=
  if bytes.isEmpty then done (self, .ok ())
  else if self.poisoned then done (self, .error .poisoned)
  else if self.closed.isSome then done (self, .error .closed)
  else
    let previous := self.metadata.activityDurableOffset
    if u64Max < previous + bytes.length then done (self, .error .activityOffsetOverflow)
    else
      (self.storage.appendFrame
        { filename := activityFilename (segmentStem self.metadata.incompleteDir)
          previousOffset := previous
          bytes := bytes
          proposedMetadata := self.proposedActivity bytes.length nowMonotonic }).bind fun
        | (storage, .error e) =>
          done ({ self with storage := storage, poisoned := e.isPoisoned }, .error (.storage e))
        | (storage, .ok m) => done ({ self with storage := storage, metadata := m }, .ok ())

/-! ## Closing -/

/-- `SegmentState::rotation_due`. -/
def rotationDue (self : SegmentState) (nowMonotonic interval : ℕ) : Bool :=
  interval ≤ self.elapsed nowMonotonic

/-- The state with its open files dropped. -/
def withoutHandles (self : SegmentState) : SegmentState :=
  { self with storage := { self.storage with handles := [] } }

/-- The state after an operation that closes it, when it works. -/
def closing (self : SegmentState) :
    Except SegmentError SegmentClose → SegmentState × Except SegmentError SegmentClose
  | .ok close => ({ self with closed := some close }, .ok close)
  | .error e => (self, .error e)

/-- One member of a segment that its metadata confirms as empty is removed. -/
def removeEmptyMember (segment name : OsName) : Prog StreamDir Turn SegmentError Unit :=
  (call (.io "inspect confirmed-empty file" [segment, name])
    (memberMetadata segment name)).bind fun node =>
  if !node.isFile || node.memberLength ≠ 0 then raise .notEmpty
  else call (.io "remove zero-length JSONL" [segment, name]) (removeMember segment name)

/-- `SegmentState::remove_confirmed_empty` after its checks. -/
def removeEmptySteps (listing : Listing) (self : SegmentState) :
    Prog StreamDir Turn SegmentError SegmentClose :=
  let incompleteDir : OsName := .str self.incompleteDir
  let metadataPath : OsName := .str self.metadataPath
  (self.storage.syncHandles.rethrow .storage).bind fun _ =>
  (call (.io "scan confirmed-empty segment" [incompleteDir])
    (readDir listing incompleteDir)).bind fun names =>
  (forEach names (removeEmptyMember incompleteDir)).bind fun _ =>
  (call (.io "remove confirmed-empty segment" [incompleteDir])
    (removeDir incompleteDir)).bind fun _ =>
  ((syncDirectory []).rethrow .storage).bind fun _ =>
  (call (.io "remove confirmed-empty metadata" [metadataPath])
    (removeFile metadataPath)).bind fun _ =>
  ((syncDirectory []).rethrow .storage).bind fun _ =>
  done .removedEmpty

/-- `SegmentState::remove_confirmed_empty`. -/
def removeConfirmedEmpty (listing : Listing) (self : SegmentState) :
    Prog StreamDir Turn ε (SegmentState × Except SegmentError SegmentClose) :=
  match self.closed with
  | some closed => done (self, .ok closed)
  | none =>
    if self.metadata.hasDurableFrames || self.metadata.activityDurableOffset ≠ 0 ||
        self.metadata.durableFrameCount ≠ 0 ||
        self.metadata.sessions.vals.any (fun session => session.durableOffset ≠ 0) then
      done (self, .error .notEmpty)
    else
      (removeEmptySteps listing self).attempt.bind fun answer =>
      done (self.withoutHandles.closing answer)

/-- The zone record of a segment. -/
def captureTime (m : SegmentMetadata) : CaptureTime :=
  { tz := m.tz, utcOffsetSeconds := m.localOffsetSeconds }

/-- `SegmentState::finalize` after the rename. -/
def settleSteps (self : SegmentState) : Prog StreamDir Turn SegmentError SegmentClose :=
  let metadataPath : OsName := .str self.metadataPath
  ((syncDirectory []).rethrow .storage).bind fun _ =>
  ((writeCaptureTime self.metadata.finalizedDir
    (captureTime self.metadata)).rethrow .storage).bind fun _ =>
  (call (.io "remove finalized metadata" [metadataPath]) (removeFile metadataPath)).bind fun _ =>
  ((syncDirectory []).rethrow .storage).bind fun _ =>
  done (.finalized self.metadata.finalizedDir)

/-- `SegmentState::finalize` from the rename on. -/
def renameSteps (self : SegmentState) : Prog StreamDir Turn SegmentError SegmentClose :=
  let incompleteDir : OsName := .str self.incompleteDir
  (call (.io "rename finalized segment" [incompleteDir])
    (renameEntry incompleteDir (.str self.metadata.finalizedDir))).bind fun _ =>
  self.settleSteps

/-- `SegmentState::finalize` once the metadata says `finalizing` and the files are closed. -/
def finalizeSteps (self : SegmentState) : Prog StreamDir Turn SegmentError SegmentClose :=
  let finalized : OsName := .str self.metadata.finalizedDir
  (entryVisible finalized).bind fun exists_ =>
  if exists_ then raise (.collision [finalized]) else self.renameSteps

/-- The state once `finalize` has settled the length. -/
def finalizing (self : SegmentState) (nowMonotonic : ℕ) : SegmentState :=
  { self with
    metadata :=
      { recordLength self.metadata (self.elapsed nowMonotonic) self.segmentInterval with
        lifecycle := .finalizing } }

/-- `SegmentState::finalize`. -/
def finalize (listing : Listing) (self : SegmentState) (nowMonotonic : ℕ) :
    Prog StreamDir Turn ε (SegmentState × Except SegmentError SegmentClose) :=
  match self.closed with
  | some closed => done (self, .ok closed)
  | none =>
    if self.poisoned then done (self, .error .poisoned)
    else if !self.metadata.hasDurableFrames && self.metadata.activityDurableOffset = 0 then
      self.removeConfirmedEmpty listing
    else
      let self := self.finalizing nowMonotonic
      (atomicWriteMetadata (.str self.metadataPath) self.metadata).attempt.bind fun
        | .error e => done (self, .error (.storage e))
        | .ok _ =>
          (self.storage.syncHandles.rethrow .storage).attempt.bind fun
            | .error e => done (self.withoutHandles, .error e)
            | .ok _ =>
              self.withoutHandles.finalizeSteps.attempt.bind fun answer =>
              done (self.withoutHandles.closing answer)

end SegmentState

end SolstoneTmux
