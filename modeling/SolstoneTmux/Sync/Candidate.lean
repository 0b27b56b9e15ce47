import SolstoneTmux.Name
import SolstoneTmux.Storage.Metadata

/-!
# Upload candidates

The uploader walks the captures directory, day by day and stream by stream, and takes every
finalized segment as a candidate. `resolveSegmentFiles` finds the files of a candidate and refuses
it when any name in its directory is not one it expects.

The captures directory is a tree of tables. What a regular file of a segment holds is a parameter
`φ` of the tree, since the lookups here never read it; reading a directory never fails here.
-/

namespace SolstoneTmux

open Foundations

/-! ## Days -/

/-- `Date`. -/
structure Date where
  year : ℕ
  month : ℕ
  day : ℕ
  deriving DecidableEq

/-- `is_leap_year`. -/
def isLeapYear (year : ℕ) : Bool := year % 4 = 0 && (year % 25 ≠ 0 || year % 16 = 0)

/-- `days_in_month`. -/
def daysInMonth (month year : ℕ) : ℕ :=
  if month ∈ [1, 3, 5, 7, 8, 10, 12] then 31
  else if month ∈ [4, 6, 9, 11] then 30
  else if isLeapYear year then 29
  else 28

/-- `Date::from_calendar_date`, for a year of at most four digits. -/
def Date.fromCalendarDate (year month day : ℕ) : Option Date :=
  if 1 ≤ month ∧ month ≤ 12 ∧ 1 ≤ day ∧ day ≤ daysInMonth month year then
    some ⟨year, month, day⟩
  else none

/-- `parse_day`. -/
def parseDay (value : Str) : Option Date :=
  if value.length = 8 && value.all isDigit then
    Date.fromCalendarDate (digitsValue (value.take 4)) (digitsValue ((value.drop 4).take 2))
      (digitsValue (value.drop 6))
  else none

/-! ## Names -/

/-- `valid_segment_name`. -/
def validSegmentName (value : Str) : Bool :=
  match splitOnce '_' value with
  | none => false
  | some (time, duration) =>
    time.length = 6 && 3 ≤ duration.length && time.all isDigit && duration.all isDigit &&
      digitsValue (time.take 2) ≤ 23 && digitsValue ((time.drop 2).take 2) ≤ 59 &&
      digitsValue (time.drop 4) ≤ 59

/-- `valid_capture_filename`. -/
def validCaptureFilename (value : Str) : Bool :=
  match (stripPrefix "tmux_".toList value).bind (stripSuffix "_screen.jsonl".toList) with
  | none => false
  | some session => (exactComponent value).isSome && (exactComponent session).isSome

/-! ## The captures directory -/

/-- The directory of a segment whose regular files hold `φ`. -/
abbrev SegmentFiles (φ : Type) := Table OsName (Node φ ℕ)

/-- The directory of a stream. -/
abbrev StreamFiles (φ : Type) := Table OsName (Node Contents (SegmentFiles φ))

/-- The directory of a day. -/
abbrev DayFiles (φ : Type) := Table OsName (Node Contents (StreamFiles φ))

/-- The captures directory. -/
abbrev Captures (φ : Type) := Table OsName (Node Contents (DayFiles φ))

/-- `SegmentCandidate`. -/
structure SegmentCandidate where
  day : Str
  stream : Str
  segment : Str
  deriving DecidableEq

/-- `ResolvedSegmentFiles`. The files are named relative to the segment's directory. -/
inductive ResolvedSegmentFiles
  | found (files : List Str)
  | empty
  | missing
  | invalid
  deriving DecidableEq

section Resolve

variable {φ δ : Type}

/-- One directory on the way to a segment. -/
def lookDirectory (entries : Table OsName (Node Contents δ)) (name : DerivedName) :
    Except ResolvedSegmentFiles δ :=
  match entries[OsName.str name.asStr]? with
  | none => .error .missing
  | some (.directory below) => .ok below
  | some _ => .error .invalid

/-- `exact_component`, or `Invalid`. -/
def exactOrInvalid (value : Str) : Except ResolvedSegmentFiles DerivedName :=
  match exactComponent value with
  | some name => .ok name
  | none => .error .invalid

/-- A name that `resolve_segment_files` accepts in the directory of a segment. -/
def validMember (segment name : Str) : Bool :=
  validCaptureFilename name ||
    ((splitOnce '_' segment).map Prod.fst).any fun stem => validActivityFilename name stem

/-- The loop of `resolve_segment_files` over the entries of a segment: their names, if all are
accepted. The entries come in the order of their names, in which the source sorts them. -/
def resolveMembers (segment : Str) : List (OsName × Node φ ℕ) → Option (List Str)
  | [] => some []
  | (name, node) :: entries =>
    match name.toStr with
    | none => none
    | some text =>
      if !validMember segment text || !node.isFile then none
      else
        match exactComponent text with
        | none => none
        | some component => (resolveMembers segment entries).map (component.asStr :: ·)

/-- The part of `resolve_segment_files` that walks down to the segment's directory. -/
def segmentDirectory (root : Captures φ) (candidate : SegmentCandidate) :
    Except ResolvedSegmentFiles (SegmentFiles φ) :=
  if (parseDay candidate.day).isNone then .error .invalid
  else
    (exactOrInvalid candidate.day).bind fun day =>
    (exactOrInvalid candidate.stream).bind fun stream =>
    (exactOrInvalid candidate.segment).bind fun segment =>
    if !validSegmentName candidate.segment then .error .invalid
    else
      (lookDirectory root day).bind fun dayEntries =>
      (lookDirectory dayEntries stream).bind fun streamEntries =>
      lookDirectory streamEntries segment

/-- The answer of `resolve_segment_files` for the entries of a segment. -/
def resolveEntries (segment : Str) (entries : List (OsName × Node φ ℕ)) : ResolvedSegmentFiles :=
  match resolveMembers segment entries with
  | none => .invalid
  | some [] => .empty
  | some files => .found files

/-- `resolve_segment_files`, in a captures directory that may be missing. -/
def resolveSegmentFiles (root : Option (Node Contents (Captures φ)))
    (candidate : SegmentCandidate) : ResolvedSegmentFiles :=
  match root with
  | none => .missing
  | some (.directory root) =>
    match segmentDirectory root candidate with
    | .error answer => answer
    | .ok entries => resolveEntries candidate.segment entries.toList
  | some _ => .invalid

/-! ## What is resolved -/

/-- The test that `resolve_segment_files` makes of one entry. -/
def acceptsEntry (segment : Str) (entry : OsName × Node φ ℕ) : Bool :=
  match entry.1.toStr with
  | none => false
  | some text => validMember segment text && entry.2.isFile && (exactComponent text).isSome

theorem resolveMembers_eq (segment : Str) (entries : List (OsName × Node φ ℕ)) :
    resolveMembers segment entries =
      if entries.all (acceptsEntry segment) then some (entries.filterMap fun e => e.1.toStr)
      else none := by
  induction entries with
  | nil => rfl
  | cons e entries ih =>
    obtain ⟨name, node⟩ := e
    rw [resolveMembers, List.all_cons, List.filterMap_cons]
    cases hname : name.toStr with
    | none => simp [acceptsEntry, hname]
    | some text =>
      cases hexact : exactComponent text with
      | none => simp [acceptsEntry, hname, hexact]
      | some c =>
        have haccepts : acceptsEntry segment (name, node) =
            (validMember segment text && node.isFile) := by
          simp only [acceptsEntry, hname, hexact, Option.isSome_some, Bool.and_true]
        have hnot : (!validMember segment text || !node.isFile) =
            !(validMember segment text && node.isFile) := by rw [Bool.not_and]
        dsimp only
        rw [haccepts, ih, hnot, hexact]
        cases validMember segment text && node.isFile with
        | false => rfl
        | true =>
          rw [Bool.true_and, ← (exactComponent_eq_some hexact).2]
          cases entries.all (acceptsEntry segment) <;> rfl

variable {members : SegmentFiles φ}

theorem mem_memberNames {name : Str} :
    name ∈ members.toList.filterMap (fun e => e.1.toStr) ↔
      ∃ node, members[OsName.str name]? = some node := by
  rw [List.mem_filterMap]
  constructor
  · rintro ⟨⟨key, node⟩, he, hkey⟩
    rw [OsName.toStr_eq_some] at hkey
    exact ⟨node, hkey ▸ Table.mem_toList.mp he⟩
  · rintro ⟨node, hnode⟩
    exact ⟨(.str name, node), Table.mem_toList.mpr hnode, rfl⟩

theorem nodup_memberNames : (members.toList.filterMap fun e => e.1.toStr).Nodup := by
  have hmap : (members.toList.filterMap fun e => e.1.toStr) =
      (members.toList.map Prod.fst).filterMap OsName.toStr := by rw [List.filterMap_map]; rfl
  rw [hmap]
  refine (Table.nodup_keys members).filterMap fun a b c ha hb => ?_
  rw [OsName.toStr_eq_some.mp ha, OsName.toStr_eq_some.mp hb]

end Resolve

/-! ## Preparing a file -/

/-- `LocalFile`. -/
structure LocalFile where
  name : Str
  size : ℕ
  sha256 : Str
  deriving DecidableEq

/-- `prepare_file` on a file name and what the file holds. `sha256` is the digest in hexadecimal;
`none` is the error `LocalSegmentInvalid`. -/
def prepareFile (sha256 : Bytes → Str) (name : OsName) (content : Option Bytes) : Option LocalFile :=
  match name.toStr with
  | none => none
  | some text =>
    match exactComponent text with
    | none => none
    | some _ => content.map fun bytes => ⟨text, bytes.length, sha256 bytes⟩

end SolstoneTmux
