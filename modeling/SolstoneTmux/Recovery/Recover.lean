import SolstoneTmux.Recovery.Validate

/-!
# Startup recovery

`recoverCandidate` settles one segment that an earlier process left open: it is finalized, repaired
and finalized, removed when its metadata confirms that nothing was committed, moved aside to a
`.failed` name when its parts contradict each other, or retained. `recoverStream` does this for
every stem in a stream directory.

The reads that a step makes of one directory are one call here, since nothing else changes the
directory between them. The hook that tests run before the removal of an empty segment is left out.
-/

namespace SolstoneTmux

open Foundations Foundations.Prog

/-- `RecoveryOptions`: the failures a test can inject. -/
structure RecoveryOptions where
  failSourceRename : Bool
  failRepairSync : Bool
  failRenameParentSync : Bool
  deriving DecidableEq

/-- `RecoveryOptions::default`. -/
def RecoveryOptions.default : RecoveryOptions := ⟨false, false, false⟩

/-- `RecoveryAction`. -/
inductive RecoveryAction
  | finalized
  | repairThenFinalize
  | retain
  | quarantine
  | remove
  | failed
  deriving DecidableEq

/-- `RecoveryRecord`. -/
structure RecoveryRecord where
  candidate : RelPath
  action : RecoveryAction
  detail : String
  deriving DecidableEq

/-- `RecoveryError`. -/
inductive RecoveryError
  | storage (error : StorageError)
  | specialTarget (path : RelPath)
  | io (operation : String) (path : RelPath) (source : IoKind)

/-- A program of recovery. -/
abbrev RecoveryProg (α : Type) := Prog StreamDir Turn RecoveryError α

/-- `record`. -/
def record (candidate : RelPath) (action : RecoveryAction) (detail : String) :
    RecoveryProg RecoveryRecord :=
  done ⟨candidate, action, detail⟩

/-- `sync_directory`, with its error converted. -/
def recoverySync (path : RelPath) : RecoveryProg Unit := (syncDirectory path).rethrow .storage

/-! ## Inspecting -/

/-- `reject_special_target`: a metadata file must be a regular file and a source a directory. -/
def rejectSpecialTarget (name : OsName) (isMeta : Bool) : RecoveryProg Unit :=
  (symlinkMetadata name).bind fun
    | .ok node =>
      if (if isMeta then node.isFile else node.isDir) then done ()
      else raise (.specialTarget [name])
    | .error .notFound => done ()
    | .error kind => raise (.io "inspect recovery target" [name] kind)

/-- `entry_exists`. -/
def entryExists (name : OsName) : RecoveryProg Bool :=
  (symlinkMetadata name).bind fun
    | .ok _ => done true
    | .error .notFound => done false
    | .error kind => raise (.io "inspect recovery collision target" [name] kind)

/-- `Path::is_dir`: an error counts as absence. -/
def isDirectory (name : OsName) : RecoveryProg Bool :=
  glance (fun d => d[name]?.any Node.isDir) false

/-- The members of a segment directory. -/
def readMembers (operation : String) (segment : OsName) : RecoveryProg SegmentDir :=
  call (.io operation [segment])
    (query fun d => match segmentMembers d segment with
      | some members => .ok members
      | none => .error .other)

/-- `validate_files` on a directory of the stream. -/
def validateDirectory (decoder : Decoder) (listing : Listing) (segment : OsName)
    (m : SegmentMetadata) : RecoveryProg Validation :=
  (readMembers "scan incomplete segment" segment).bind fun members =>
  done (validateFiles decoder listing members m)

/-! ## Quarantine -/

/-- The name that quarantine gives a segment on its attempt `number`. -/
def failedName (stem : Str) (number : ℕ) : Str :=
  stem ++ (if number = 0 then [] else '.' :: decimal number) ++ ".failed".toList

/-- The name that quarantine gives a metadata file on its attempt `number`. -/
def failedMetaName (stem : Str) (number : ℕ) : Str :=
  stem ++ (if number = 0 then [] else '.' :: decimal number) ++ ".failed.meta".toList

/-- Neither name of an attempt is in use. -/
def attemptFree (d : StreamDir) (stem : Str) (number : ℕ) : Bool :=
  d[OsName.str (failedName stem number)]?.isNone &&
    d[OsName.str (failedMetaName stem number)]?.isNone

/-- The first free attempt from `number` on, within `fuel` attempts. -/
def firstFreeFrom (d : StreamDir) (stem : Str) : ℕ → ℕ → ℕ
  | 0, number => number
  | fuel + 1, number =>
    if attemptFree d stem number then number else firstFreeFrom d stem fuel (number + 1)

/-- The number that the loop of `quarantine` stops at. More attempts than there are entries are
never needed (`attemptFree_firstFree`). -/
def firstFree (d : StreamDir) (stem : Str) : ℕ := firstFreeFrom d stem d.size 0

/-- `quarantine`. -/
def quarantine (stem : Str) (detail : String) : RecoveryProg RecoveryRecord :=
  let source : OsName := .str (incompleteName stem)
  let metadata : OsName := .str (incompleteMetaName stem)
  (call (.io "inspect recovery collision target" [])
    (query fun d => .ok (firstFree d stem))).bind fun number =>
  let failed : OsName := .str (failedName stem number)
  let failedMetadata : OsName := .str (failedMetaName stem number)
  (entryExists source).bind fun sourceExists =>
  (entryExists metadata).bind fun metadataExists =>
  (if sourceExists then
    call (.io "quarantine segment" [source]) (renameEntry source failed)
  else done ()).bind fun _ =>
  (if metadataExists then
    (renameEntry metadata failedMetadata).bind fun
      | .ok _ => done ()
      | .error kind =>
        (if sourceExists then renameEntry failed source else done (.ok ())).bind fun _ =>
        raise (.io "quarantine metadata" [metadata] kind)
  else done ()).bind fun _ =>
  (recoverySync []).bind fun _ =>
  record [failed] .quarantine detail

/-! ## Empty segments -/

/-- `truncate_uncommitted_activity_writer`. -/
def truncateUncommittedActivityWriter (source : OsName) (stem : Str) : RecoveryProg Unit :=
  let member : OsName := .str (activityFilename stem)
  (memberMetadata source member).bind fun
    | .ok node =>
      if !node.isFile || node.memberLength = 0 then done ()
      else
        (call (.io "truncate uncommitted activity JSONL" [source, member])
          (setLen source member 0)).bind fun _ =>
        (call (.io "truncate uncommitted activity JSONL" [source, member]) barrier).bind fun _ =>
        recoverySync [source]
    | .error .notFound => done ()
    | .error kind => raise (.io "inspect uncommitted activity JSONL" [source, member] kind)

/-- A member is an activity file with an id and is not empty. -/
def isNonemptyIdActivity (stem : Str) (members : SegmentDir) (name : OsName) : Bool :=
  match name.toStr with
  | none => false
  | some text =>
    text ≠ activityFilename stem && validActivityFilename text stem &&
      members[name]?.any fun node => node.isFile && decide (0 < node.memberLength)

/-- `has_nonempty_id_activity_file`. -/
def hasNonemptyIdActivityFile (listing : Listing) (source : OsName) (stem : Str) :
    RecoveryProg Bool :=
  (readMembers "scan activity members in empty segment" source).bind fun members =>
  glance (fun _ => (listing.order members).any (isNonemptyIdActivity stem members)) false

/-- A member is a regular file without content. -/
def isEmptyFile (members : SegmentDir) (name : OsName) : Bool :=
  members[name]?.any fun node => node.isFile && node.memberLength = 0

/-- `validated_empty_files`: the members, when all of them are empty files. -/
def validatedEmptyFiles (listing : Listing) (source : OsName) :
    RecoveryProg (Option (List OsName)) :=
  (readMembers "scan empty segment" source).bind fun members =>
  let names := listing.order members
  done (if names.all (isEmptyFile members) then some names else none)

/-- `remove_validated_empty_files`: removes the validated members, unless the directory no longer
holds exactly these as empty files. -/
def removeValidatedEmptyFiles (listing : Listing) (source : OsName) (validated : List OsName) :
    RecoveryProg Bool :=
  (readMembers "scan zero-length files" source).bind fun members =>
  let names := listing.order members
  if !(names.all fun name => validated.contains name && isEmptyFile members name) ||
      names.length ≠ validated.length then
    done false
  else
    (forEach validated fun name =>
      call (.io "remove zero-length JSONL" [source, name]) (removeMember source name)).bind fun _ =>
    done true

/-! ## Repairs -/

/-- `apply_repairs`. -/
def applyRepairs (source : OsName) (options : RecoveryOptions) (repairs : List FileRepair) :
    RecoveryProg Unit :=
  forEach repairs fun repair =>
    let path : RelPath := [source, .str repair.name]
    (call (.io "truncate and fsync JSONL repair" path)
      (setLen source (.str repair.name) repair.offset)).bind fun _ =>
    if options.failRepairSync then raise (.io "truncate and fsync JSONL repair" path .other)
    else call (.io "truncate and fsync JSONL repair" path) barrier

/-! ## One candidate -/

section Candidate

variable (decoder : Decoder) (listing : Listing) (stem : Str) (options : RecoveryOptions)

/-- The end of `recover_candidate` after the rename: the zone record is written and the metadata
removed. -/
def finishRecovered (m : SegmentMetadata) (repaired : Bool) : RecoveryProg RecoveryRecord :=
  let metadataPath : OsName := .str (incompleteMetaName stem)
  (if options.failRenameParentSync then raise (.io "fsync recovered rename parent" [] .other)
  else recoverySync []).bind fun _ =>
  ((writeCaptureTime m.finalizedDir (SegmentState.captureTime m)).rethrow .storage).bind fun _ =>
  (call (.io "remove recovered metadata" [metadataPath]) (removeFile metadataPath)).bind fun _ =>
  (recoverySync []).bind fun _ =>
  if repaired then
    record [.str m.finalizedDir] .repairThenFinalize "repaired durable file tails and finalized"
  else record [.str m.finalizedDir] .finalized "validated durable bytes and finalized"

/-- The part of `recover_candidate` that writes the final metadata and renames the source to the
finalized name; the metadata is restored when the rename fails. -/
def finalizeRecovered (finalizedDir : Str) (original : Contents) (m : SegmentMetadata)
    (repaired : Bool) : RecoveryProg RecoveryRecord :=
  let source : OsName := .str (incompleteName stem)
  let metadataPath : OsName := .str (incompleteMetaName stem)
  let m := { m with lifecycle := .finalizing }
  ((atomicWriteMetadata metadataPath m).rethrow .storage).bind fun _ =>
  (renameEntry source (.str finalizedDir)).bind fun
    | .error _ =>
      ((atomicWriteBytes metadataPath original).rethrow .storage).bind fun _ =>
      record [source] .failed "source rename failed and was retained"
    | .ok _ => finishRecovered stem options m repaired

/-- The part of `recover_candidate` that validates the files and repairs them. -/
def validateAndFinalize (original : Contents) (m : SegmentMetadata) :
    RecoveryProg RecoveryRecord :=
  let source : OsName := .str (incompleteName stem)
  (validateDirectory decoder listing source m).bind fun validation =>
  match validation.kind with
  | .contradictory => quarantine stem validation.detail
  | .exact => finalizeRecovered stem options m.finalizedDir original m false
  | .repair =>
    (applyRepairs source options validation.repairs).bind fun _ =>
    finalizeRecovered stem options m.finalizedDir original
      (validation.updatedMetadata.getD m) true

/-- The part of `recover_candidate` for a source whose metadata confirms that it is empty, once the
uncommitted activity is cut off and no other activity file has content. -/
def removeConfirmedEmptySource : RecoveryProg RecoveryRecord :=
  let source : OsName := .str (incompleteName stem)
  let metadataPath : OsName := .str (incompleteMetaName stem)
  (validatedEmptyFiles listing source).bind fun
    | none => quarantine stem "empty metadata contradicts JSONL bytes"
    | some validated =>
      (removeValidatedEmptyFiles listing source validated).bind fun removed =>
      if !removed then
        record [source] .retain
          "confirmed-empty segment changed before removal; retained without deleting unvalidated entries"
      else
        (call (.io "remove confirmed-empty segment" [source]) (removeDir source)).bind fun _ =>
        (call (.io "remove confirmed-empty metadata" [metadataPath])
          (removeFile metadataPath)).bind fun _ =>
        (recoverySync []).bind fun _ =>
        record [source] .remove "valid metadata positively confirmed an empty segment"

/-- The part of `recover_candidate` for a source directory with consistent metadata. -/
def recoverSource (original : Contents) (m : SegmentMetadata) : RecoveryProg RecoveryRecord :=
  let source : OsName := .str (incompleteName stem)
  (entryExists (.str m.finalizedDir)).bind fun collision =>
  if collision then
    record [source] .failed "finalized target collision; source and metadata retained"
  else if options.failSourceRename then
    record [source] .failed "injected source rename failure; source and metadata retained"
  else if confirmsEmpty m then
    (truncateUncommittedActivityWriter source stem).bind fun _ =>
    (hasNonemptyIdActivityFile listing source stem).bind fun idActivity =>
    if idActivity then validateAndFinalize decoder listing stem options original m
    else removeConfirmedEmptySource listing stem
  else validateAndFinalize decoder listing stem options original m

/-- The part of `recover_candidate` for consistent metadata without its source: what is left of a
creation, of a removal, or of a finalization after its rename. -/
def recoverOrphan (m : SegmentMetadata) : RecoveryProg RecoveryRecord :=
  let source : OsName := .str (incompleteName stem)
  let metadataPath : OsName := .str (incompleteMetaName stem)
  let finalized : OsName := .str m.finalizedDir
  if m.lifecycle = .creating || confirmsEmpty m then
    (call (.io "remove orphan creating metadata" [metadataPath])
      (removeFile metadataPath)).bind fun _ =>
    (recoverySync []).bind fun _ =>
    record [source] .remove "removed orphan creating metadata"
  else
    (symlinkMetadata finalized).bind fun entry =>
    match entry with
    | .error .other => raise (.io "inspect orphan finalized target" [finalized] .other)
    | .ok (.directory _) =>
      (validateDirectory decoder listing finalized m).bind fun validation =>
      if validation.kind = .exact then
        ((writeCaptureTime m.finalizedDir
          (SegmentState.captureTime m)).rethrow .storage).bind fun _ =>
        (call (.io "remove orphan finalized metadata" [metadataPath])
          (removeFile metadataPath)).bind fun _ =>
        (recoverySync []).bind fun _ =>
        record [finalized] .remove "removed metadata left after finalized rename"
      else
        record [source] .retain "metadata has no matching source or validated finalized target"
    | _ =>
      record [source] .retain "metadata has no matching source or validated finalized target"

/-- The part of `recover_candidate` for a source without metadata, which is left as it is. -/
def retainWithoutMetadata : RecoveryProg RecoveryRecord :=
  let source : OsName := .str (incompleteName stem)
  (call (.io "scan metadata-less segment" [source])
    (query fun d => match segmentMembers d source with
      | none => .ok false
      | some members => .ok ((members.toList.any fun (_, node) =>
          decide (0 < node.memberLength))))).bind fun nonempty =>
  record [source] .retain
    (if nonempty then "missing metadata with non-empty JSONL"
    else "missing metadata cannot prove an empty segment")

/-- `recover_candidate`. -/
def recoverCandidate (segmentInterval : ℕ) : RecoveryProg RecoveryRecord :=
  let source : OsName := .str (incompleteName stem)
  let metadataPath : OsName := .str (incompleteMetaName stem)
  (rejectSpecialTarget source false).bind fun _ =>
  (rejectSpecialTarget metadataPath true).bind fun _ =>
  if (exactComponent stem).isNone || !validTimeName stem then
    quarantine stem "candidate stem is not a well-formed HHMMSS"
  else
    (readFile metadataPath).bind fun
      | .error .other => raise (.io "read segment metadata" [metadataPath] .other)
      | .error .notFound => (isDirectory source).bind fun _ => retainWithoutMetadata stem
      | .ok content =>
        (isDirectory source).bind fun sourceExists =>
        match (decoder.metadata content).filter (metadataIsConsistent · stem) with
        | none => quarantine stem "metadata is torn or contradictory"
        | some m =>
          if sourceExists then
            recoverSource decoder listing stem options content
              (recordLength m m.elapsedNanos segmentInterval)
          else recoverOrphan decoder listing stem m

end Candidate

/-! ## One stream -/

/-- The stem of a name that belongs to an open segment. -/
def candidateStem (name : Str) : Option Str :=
  match stripSuffix ".incomplete".toList name with
  | some stem => some stem
  | none => stripSuffix ".incomplete.meta".toList name

/-- The stems in a stream directory, each once and in order. -/
def candidateStems (d : StreamDir) : List Str :=
  ((d.keys.filterMap fun name => name.toStr.bind candidateStem).dedup).insertionSort (strLe · ·)

/-- The loop of `recover_stream_inner` over the stems. -/
def recoverStems (decoder : Decoder) (listing : Listing) (options : RecoveryOptions)
    (segmentInterval : ℕ) : List Str → RecoveryProg (List RecoveryRecord)
  | [] => done []
  | stem :: stems =>
    (recoverCandidate decoder listing stem options segmentInterval).bind fun first =>
    (recoverStems decoder listing options segmentInterval stems).bind fun rest =>
    done (first :: rest)

/-- `recover_stream_inner`. The barrier stands for `validate_stream`, which checks that the stream
directory is a real directory below the data root. -/
def recoverStream (decoder : Decoder) (listing : Listing) (options : RecoveryOptions)
    (segmentInterval : ℕ) : RecoveryProg (List RecoveryRecord) :=
  (call (.io "canonicalize stream directory" []) barrier).bind fun _ =>
  (call (.io "scan stream directory" []) (query fun d => .ok (candidateStems d))).bind fun stems =>
  recoverStems decoder listing options segmentInterval stems

end SolstoneTmux
