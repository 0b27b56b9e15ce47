import SolstoneTmux.Segment
import SolstoneTmux.Foundations.Lines
import Mathlib.Data.List.Dedup

/-!
# What recovery accepts

The checks that startup recovery makes on the remains of a segment: `metadataIsConsistent` on the
metadata, and `validateFiles` on the session files, the activity file and the frame ids against it.
The second answers `exact`, a list of truncations that restore the recorded state, or a
contradiction.

`validateFiles` reads the directory in one go: recovery runs alone under the instance lock.
-/

namespace SolstoneTmux

open Foundations

/-! ## Stems and names -/

/-- `valid_time_name`. -/
def validTimeName (value : Str) : Bool :=
  value.length = 6 && value.all isDigit && digitsValue (value.take 2) ≤ 23 &&
    digitsValue ((value.drop 2).take 2) ≤ 59 && digitsValue (value.drop 4) ≤ 59

/-- `is_direct_name`. -/
def isDirectName (name : Str) : Bool :=
  !name.isEmpty && name ≠ ".".toList && name ≠ "..".toList && !name.contains '/'

/-! ## Metadata -/

/-- The conditions on one session's metadata. -/
def sessionIsConsistent (m : SegmentMetadata) (identity : Str) (session : SessionMetadata) : Bool :=
  identity = session.session &&
    (match deriveComponent identity with
      | .ok name => name.sessionFilename = session.filename
      | .error _ => false) &&
    decide (0 < session.durableOffset) = decide (0 < session.lastFrameId) &&
    session.lastFrameId ≤ m.lastDurableFrameId

/-- `metadata_is_consistent`. The last test, that no two sessions share a file, is the insertion of
every file name into a set. -/
def metadataIsConsistent (m : SegmentMetadata) (stem : Str) : Bool :=
  m.schemaVersion = SegmentMetadata.SCHEMA_VERSION &&
    validTimeName stem &&
    m.incompleteDir = incompleteName stem &&
    isDirectName m.incompleteDir &&
    isDirectName m.finalizedDir &&
    m.finalizedDir = finalizedName stem m.elapsedNanos &&
    validOffsetSeconds m.localOffsetSeconds &&
    validUnixNanos m.startWallUnixNanos &&
    m.hasDurableFrames = decide (0 < m.durableFrameCount) &&
    m.durableFrameCount = m.lastDurableFrameId &&
    !(m.lifecycle = .creating &&
      (m.durableFrameCount ≠ 0 || m.activityDurableOffset ≠ 0 || !m.sessions.isEmpty)) &&
    m.sessions.toList.all (fun (identity, session) => sessionIsConsistent m identity session) &&
    decide (m.sessions.vals.map SessionMetadata.filename).Nodup

/-- The metadata records neither frames nor activity. -/
def confirmsEmpty (m : SegmentMetadata) : Bool :=
  m.durableFrameCount = 0 && m.lastDurableFrameId = 0 && !m.hasDurableFrames &&
    m.activityDurableOffset = 0 && m.sessions.vals.all fun session => session.durableOffset = 0

/-! ## Lines -/

/-- The frame id of one line without its line feed. -/
def frameIdOf (decoder : Decoder) (line : Bytes) : Option ℕ :=
  ((decoder.valueFromSlice line).bind (Json.get "frame_id".toList)).bind Json.asU64

/-- The loop of `parse_recorded_prefix`, from an offset and the ids read so far. -/
def parseLines (decoder : Decoder) : List Bytes → ℕ → List ℕ → ℕ × List ℕ × Bool
  | [], offset, ids => (offset, ids, false)
  | line :: lines, offset, ids =>
    if line.getLast? ≠ some newline then (offset, ids, true)
    else
      match frameIdOf decoder line.dropLast with
      | none => (offset, ids, false)
      | some frameId =>
        if ids.getLast?.any (fun previous => frameId ≤ previous) then (offset, ids, false)
        else parseLines decoder lines (offset + line.length) (ids ++ [frameId])

/-- `parse_recorded_prefix`: how far the lines are frames with increasing ids, these ids, and
whether the reading stopped at a torn line. -/
def parseRecordedPrefix (decoder : Decoder) (bytes : Bytes) : ℕ × List ℕ × Bool :=
  parseLines decoder (splitInclusive newline bytes) 0 []

/-! ## Files -/

/-- `ValidationKind`. -/
inductive ValidationKind
  | exact
  | repair
  | contradictory
  deriving DecidableEq

/-- `FileRepair`: a member of the segment and the length it is cut to. -/
structure FileRepair where
  name : Str
  offset : ℕ
  deriving DecidableEq

/-- `Validation`. -/
structure Validation where
  kind : ValidationKind
  detail : String
  repairs : List FileRepair
  updatedMetadata : Option SegmentMetadata
  deriving DecidableEq

/-- `contradiction`. -/
def contradiction (detail : String) : Validation :=
  { kind := .contradictory, detail := detail, repairs := [], updatedMetadata := none }

/-- The file names the metadata expects. -/
def expectedNames (m : SegmentMetadata) : List Str := m.sessions.vals.map SessionMetadata.filename

/-- The scan of `validate_files`: the first member that should not be there. -/
def scanMembers (m : SegmentMetadata) (stem : Str) (members : SegmentDir) :
    List OsName → Option String
  | [] => none
  | name :: names =>
    match name.toStr with
    | none => some "non-UTF-8 filename in segment"
    | some text =>
      if !(members[name]?.any Node.isFile) ||
          (!(expectedNames m).contains text && !validActivityFilename text stem) then
        some "unknown or non-regular file in segment"
      else scanMembers m stem members names

/-- What the session loop of `validate_files` has gathered. -/
structure Gathered where
  updated : SegmentMetadata
  repairs : List FileRepair
  allIds : List ℕ

/-- The metadata with one session's offset and last id replaced. -/
def updateSession (m : SegmentMetadata) (session : Str) (offset lastId : ℕ) : SegmentMetadata :=
  match m.sessions[session]? with
  | some entry =>
    { m with
      sessions :=
        m.sessions.insert session { entry with durableOffset := offset, lastFrameId := lastId } }
  | none => m

/-- One round of the session loop of `validate_files`. -/
def validateSession (decoder : Decoder) (members : SegmentDir) (session : SessionMetadata)
    (g : Gathered) : Except String Gathered :=
  match members[OsName.str session.filename]? with
  | some (.file bytes) =>
    let recorded := session.durableOffset
    if bytes.length < recorded then .error "JSONL is shorter than its durable offset"
    else
      let (validOffset, ids, prefixTorn) := parseRecordedPrefix decoder (bytes.take recorded)
      if !prefixTorn && validOffset ≠ (bytes.take recorded).length then
        .error "earlier JSONL corruption"
      else if !prefixTorn && ids.getLast?.getD 0 ≠ session.lastFrameId then
        .error "session frame IDs disagree with metadata"
      else
        let g : Gathered :=
          if prefixTorn then
            { updated := updateSession g.updated session.session validOffset (ids.getLast?.getD 0)
              repairs := g.repairs ++ [⟨session.filename, validOffset⟩]
              allIds := g.allIds }
          else g
        if recorded < bytes.length then
          if newline ∈ bytes.drop recorded then
            .error "complete or multiline bytes exist beyond the durable offset"
          else
            .ok { g with
              repairs := g.repairs ++ [⟨session.filename, recorded⟩]
              allIds := g.allIds ++ ids }
        else .ok { g with allIds := g.allIds ++ ids }
  | some _ => .error "unknown or non-regular file in segment"
  | none => .error "referenced JSONL file is missing"

/-- The session loop of `validate_files`. -/
def validateSessions (decoder : Decoder) (members : SegmentDir) :
    List SessionMetadata → Gathered → Except String Gathered
  | [], g => .ok g
  | session :: sessions, g =>
    match validateSession decoder members session g with
    | .error detail => .error detail
    | .ok g => validateSessions decoder members sessions g

/-- The offset the activity file is repaired to. -/
def repairedActivityOffset (recordedPart : Bytes) : ℕ := (completePart newline recordedPart).length

/-- The activity part of `validate_files`. A recorded part that is empty or ends with a line feed
stays; otherwise the offset is the one after its last line feed. -/
def validateActivity (m : SegmentMetadata) (stem : Str) (members : SegmentDir) (g : Gathered) :
    Except String Gathered :=
  match members[OsName.str (activityFilename stem)]? with
  | some (.file bytes) =>
    let recorded := m.activityDurableOffset
    if bytes.length < recorded then .error "activity JSONL is shorter than its durable offset"
    else
      let repaired := repairedActivityOffset (bytes.take recorded)
      if repaired ≠ recorded || recorded < bytes.length then
        .ok { g with
          updated := { g.updated with activityDurableOffset := repaired }
          repairs := g.repairs ++ [⟨activityFilename stem, repaired⟩] }
      else .ok g
  | some _ => .error "unknown or non-regular file in segment"
  | none =>
    if m.activityDurableOffset ≠ 0 then .error "activity JSONL is missing" else .ok g

/-- The last part of `validate_files`: the frame ids of all files are one to their number. -/
def validateIds (m : SegmentMetadata) (g : Gathered) : Validation :=
  let ids := g.allIds.insertionSort (· ≤ ·)
  let expectedCount := ids.length
  let expectedLast := ids.getLast?.getD 0
  if ids.zipIdx.any fun (frameId, index) => frameId ≠ index + 1 then
    contradiction "global frame IDs are duplicated or nonconsecutive"
  else if g.repairs.isEmpty &&
      (m.durableFrameCount ≠ expectedCount || m.lastDurableFrameId ≠ expectedLast) then
    contradiction "global frame IDs disagree with metadata"
  else if g.repairs.isEmpty then
    { kind := .exact, detail := "", repairs := [], updatedMetadata := some g.updated }
  else
    { kind := .repair
      detail := ""
      repairs := g.repairs
      updatedMetadata := some
        { g.updated with
          durableFrameCount := expectedCount
          lastDurableFrameId := expectedLast
          hasDurableFrames := decide (0 < expectedCount) } }

/-- `validate_files` on the members of a directory. -/
def validateFiles (decoder : Decoder) (listing : Listing) (members : SegmentDir)
    (m : SegmentMetadata) : Validation :=
  let stem := segmentStem m.incompleteDir
  match scanMembers m stem members (listing.order members) with
  | some detail => contradiction detail
  | none =>
    match validateSessions decoder members m.sessions.vals
        { updated := m, repairs := [], allIds := [] } with
    | .error detail => contradiction detail
    | .ok g =>
      match validateActivity m stem members g with
      | .error detail => contradiction detail
      | .ok g => validateIds m g

end SolstoneTmux
