import SolstoneTmux.Foundations.Program
import SolstoneTmux.Sync.Candidate

/-!
# Removing a segment that was acknowledged

`deleteRevalidatedSegment` removes the files of a segment one by one, each after it has been opened
and hashed again, and then their directory. When a step fails, `restoreExpectedFiles` brings the
files back from the handles that were kept open, and moves what it finds in their places aside.

Others act on the files meanwhile: before each call, the turn's `External` actions happen. They
reach the segment through the expected names and never replace its directory, so that what
`resolve_segment_files` says about the directories above is a parameter. Opening a file again,
comparing it, hashing it and unlinking it is one call. The calls of the restoration always work;
any other call may fail.

An open file is named by its number (the device and the inode), which is never used again. What
happens is recorded in the world's `events`.
-/

namespace SolstoneTmux

open Foundations Foundations.Prog

/-! ## Files -/

/-- What a handle reads: the content and the times of its last change. -/
structure OpenFile where
  content : Bytes
  times : ℕ
  deriving DecidableEq

/-- `FileIdentity`. -/
structure FileIdentity where
  name : Str
  number : ℕ
  size : ℕ
  times : ℕ
  deriving DecidableEq

/-- The directory of the segment, unless it is gone, and every file by its number. -/
structure Store where
  directory : Option (SegmentFiles ℕ)
  files : List OpenFile

namespace Store

/-- The entry of a name. -/
def lookup (s : Store) (name : Str) : Option (Node ℕ ℕ) :=
  s.directory.bind fun entries => entries[OsName.str name]?

/-- The store with an entry under a name. -/
def withEntry (s : Store) (name : Str) (node : Node ℕ ℕ) : Store :=
  { s with directory := s.directory.map (·.insert (.str name) node) }

/-- The store without the entry of a name. -/
def without (s : Store) (name : Str) : Store :=
  { s with directory := s.directory.map (·.erase (.str name)) }

/-- The store with a new file under a name. -/
def withFile (s : Store) (name : Str) (file : OpenFile) : Store :=
  { s with files := s.files ++ [file] }.withEntry name (.file s.files.length)

/-- `open_regular_readonly` of a name. -/
def openRegular (s : Store) (name : Str) : Option ℕ :=
  match s.lookup name with
  | some (.file number) => some number
  | _ => none

end Store

/-- What others do to the files of a segment. -/
inductive External
  | remove (name : Str)
  | replace (name : Str) (node : Node OpenFile ℕ)
  | change (number : ℕ) (file : OpenFile)

namespace External

/-- The effect of an action. -/
def apply : External → Store → Store
  | remove name, s => s.without name
  | replace name (.file file), s => s.withFile name file
  | replace name (.directory n), s => s.withEntry name (.directory n)
  | replace name (.special n), s => s.withEntry name (.special n)
  | change number file, s => { s with files := s.files.set number file }

/-- An action on one of the given names, or on the content of a file. -/
def Within (names : List Str) : External → Prop
  | remove name => name ∈ names
  | replace name _ => name ∈ names
  | change _ _ => True

end External

/-- What happened to a segment. -/
inductive Event
  | external (action : External)
  | unlinked (name : Str) (number : ℕ) (content : Bytes)
  | restoring (index : ℕ) (entry : Option (Node ℕ ℕ))
  | restored (index number : ℕ)

/-- The store, and what has happened. -/
structure World where
  store : Store
  events : List Event

/-- What others do before a call, on the expected names, and whether the call works. -/
structure RemovalTurn (names : List Str) where
  actions : List External
  within : ∀ action ∈ actions, action.Within names
  works : Bool

instance {names : List Str} : Inhabited (RemovalTurn names) := ⟨⟨[], nofun, true⟩⟩

/-- An action of others. -/
def World.act (w : World) (action : External) : World :=
  ⟨action.apply w.store, w.events ++ [.external action]⟩

section Calls

variable {names : List Str}

/-- The actions of others before a call. -/
def RemovalTurn.others (t : RemovalTurn names) (w : World) : World := t.actions.foldl World.act w

/-- A program that removes a segment. -/
abbrev Removal (names : List Str) (α : Type) := Prog World (RemovalTurn names) Empty α

/-- A call that only reads and may fail. -/
def look {α : Type} (read : Store → Option α) : Removal names (Option α) :=
  shared RemovalTurn.others fun t w => (if t.works then read w.store else none, w)

/-- A call that only reads and works. -/
def see {α : Type} (read : Store → α) : Removal names α :=
  shared RemovalTurn.others fun _ w => (read w.store, w)

/-! ## The restoration -/

/-- `metadata_matches`. -/
def metadataMatches (number : ℕ) (file : OpenFile) (expected : FileIdentity) : Bool :=
  number = expected.number && file.content.length = expected.size

/-- The name under which the file is kept that stands in the place of an expected one. -/
def conflictName (index : ℕ) : Str := ".retention-conflict-".toList ++ decimal index

/-- Opening the current file of an expected name. -/
def beginRestoring (index : ℕ) (name : Str) : Removal names (Option ℕ) :=
  shared RemovalTurn.others fun _ w =>
    (w.store.openRegular name, { w with events := w.events ++ [.restoring index (w.store.lookup name)] })

/-- The metadata of an open file. -/
def statHandle (number : Option ℕ) : Removal names (Option (ℕ × OpenFile)) :=
  see fun s => number.bind fun number => s.files[number]?.map fun file => (number, file)

/-- `renameat(2)` of an entry. -/
def renameat (source target : Str) : Removal names Bool :=
  shared RemovalTurn.others fun _ w =>
    match w.store.lookup source with
    | none => (false, w)
    | some node =>
      match w.store.lookup target with
      | some (.directory _) => (false, w)
      | found =>
        if node.isDir && found.isSome then (false, w)
        else (true, { w with store := (w.store.without source).withEntry target node })

/-- The rename with which `atomic_write_bytes` puts a file in its place. -/
def install (index : ℕ) (name : Str) (bytes : Bytes) : Removal names Bool :=
  shared RemovalTurn.others fun _ w =>
    match w.store.lookup name with
    | some (.directory _) => (false, w)
    | _ => (true, ⟨w.store.withFile name ⟨bytes, 0⟩,
        w.events ++ [.restored index w.store.files.length]⟩)

/-- `atomic_write_bytes`. -/
def atomicWriteExpected (index : ℕ) (name : Str) (bytes : Bytes) : Removal names Bool :=
  (see fun s => s.lookup name).bind fun entry =>
    match entry with
    | some (.directory _) | some (.special _) => .done false
    | _ => install index name bytes

/-- Writing the content of a kept handle back. -/
def rewrite (index : ℕ) (name : Str) (retained : ℕ) : Removal names Bool :=
  (see fun s => s.files[retained]?.map OpenFile.content).bind fun bytes =>
    match bytes with
    | none => .done false
    | some bytes => atomicWriteExpected index name bytes

/-- One round of `restore_expected_files`. -/
def restoreFile (index : ℕ) (expected : FileIdentity) (retained : ℕ) : Removal names Bool :=
  (beginRestoring index expected.name).bind fun opened =>
  (statHandle opened).bind fun metadata =>
  if metadata.any fun (number, file) => metadataMatches number file expected then .done true
  else
    (see fun s => s.lookup expected.name).bind fun entry =>
    match entry with
    | none => rewrite index expected.name retained
    | some _ =>
      (see fun s => s.lookup (conflictName index)).bind fun conflict =>
      if conflict.isSome then .done false
      else
        (renameat expected.name (conflictName index)).bind fun moved =>
        if !moved then .done false else rewrite index expected.name retained

/-- `restore_expected_files`, from an index on. -/
def restoreExpectedFiles : ℕ → List (FileIdentity × ℕ) → Removal names Bool
  | _, [] => .done true
  | index, (expected, retained) :: rest =>
    (restoreFile index expected retained).bind fun restored =>
    (restoreExpectedFiles (index + 1) rest).bind fun others => .done (restored && others)

/-! ## The removal -/

/-- `RemovalResult`. -/
inductive RemovalResult
  | removed
  | absent
  | refused
  | failed
  deriving DecidableEq

/-- What `resolve_segment_files` finds of the candidate's name and the directories above the
segment. -/
inductive Above
  | missing
  | invalid
  | found

/-- `resolve_segment_files`. -/
def resolveFiles (above : Above) (candidate : SegmentCandidate) :
    Removal names (Option ResolvedSegmentFiles) :=
  look fun s => some <|
    match above, s.directory with
    | .missing, _ => .missing
    | .invalid, _ => .invalid
    | .found, none => .missing
    | .found, some entries => resolveEntries candidate.segment entries.toList

/-- `file_identities`. -/
def fileIdentities : List Str → Removal names (Option (List FileIdentity))
  | [] => .done (some [])
  | name :: rest =>
    (look fun s => s.openRegular name).bind fun opened =>
    match opened with
    | none => .done none
    | some number =>
      (look fun s => s.files[number]?).bind fun metadata =>
      match metadata with
      | none => .done none
      | some file =>
        (fileIdentities rest).bind fun others =>
        .done (others.map (⟨name, number, file.content.length, file.times⟩ :: ·))

/-- The loop that opens the expected files and keeps the handles. -/
def retainFiles : List FileIdentity → Removal names (Option (List ℕ))
  | [] => .done (some [])
  | expected :: rest =>
    (look fun s => s.openRegular expected.name).bind fun opened =>
    match opened with
    | none => .done none
    | some number =>
      (look fun s => s.files[number]?).bind fun metadata =>
      match metadata with
      | none => .done none
      | some file =>
        if !metadataMatches number file expected then .done none
        else (retainFiles rest).bind fun others => .done (others.map (number :: ·))

variable (sha256 : Bytes → Str) (digests : Str → Option Str)

/-- The content of an expected file that is still the acknowledged one. -/
def provesCustody (expected : FileIdentity) (s : Store) : Option Bytes :=
  (s.openRegular expected.name).bind fun number =>
  s.files[number]?.bind fun file =>
  if metadataMatches number file expected &&
      digests expected.name = some (sha256 file.content) then some file.content
  else none

/-- One round of the loop that unlinks: opening, comparing, hashing and unlinking. -/
def unlinkExpected (expected : FileIdentity) : Removal names Bool :=
  shared RemovalTurn.others fun t w =>
    match provesCustody sha256 digests expected w.store with
    | none => (false, w)
    | some content =>
      if t.works then
        (true, ⟨w.store.without expected.name,
          w.events ++ [.unlinked expected.name expected.number content]⟩)
      else (false, w)

/-- The loop that unlinks. -/
def unlinkFiles : List FileIdentity → Removal names Bool
  | [] => .done true
  | expected :: rest =>
    (unlinkExpected sha256 digests expected).bind fun unlinked =>
    if unlinked then unlinkFiles rest else .done false

/-- `unlinkat(2)` of the segment's directory. -/
def removeDirectory : Removal names Bool :=
  shared RemovalTurn.others fun t w =>
    match w.store.directory with
    | none => (false, w)
    | some entries =>
      if t.works && entries.isEmpty then (true, { w with store := { w.store with directory := none } })
      else (false, w)

/-- `delete_revalidated_segment`. -/
def deleteRevalidatedSegment (above : Above) (candidate : SegmentCandidate)
    (expectedPaths : List Str) (expectedIdentities : List FileIdentity) : Removal expectedPaths RemovalResult :=
  (resolveFiles above candidate).bind fun resolved =>
  match resolved with
  | some .missing => .done .absent
  | some (.found paths) =>
    if paths ≠ expectedPaths then .done .refused
    else
      (fileIdentities paths).bind fun identities =>
      if identities ≠ some expectedIdentities then .done .refused
      else if expectedPaths = [] then .done .refused
      else
        (look fun s => s.directory.map fun _ => ()).bind fun segmentDirectory =>
        if segmentDirectory.isNone then .done .refused
        else
          (look fun _ => some ()).bind fun streamDirectory =>
          if streamDirectory.isNone then .done .refused
          else
            (retainFiles expectedIdentities).bind fun retained =>
            match retained with
            | none => .done .refused
            | some retained =>
              (unlinkFiles sha256 digests expectedIdentities).bind fun unlinked =>
              if !unlinked then
                (restoreExpectedFiles 0 (expectedIdentities.zip retained)).bind fun _ =>
                .done .failed
              else
                removeDirectory.bind fun removed =>
                if !removed then
                  (restoreExpectedFiles 0 (expectedIdentities.zip retained)).bind fun _ =>
                  .done .failed
                else .done .removed
  | _ => .done .refused

end Calls

end SolstoneTmux
