import SolstoneTmux.Foundations.Collect
import SolstoneTmux.Sync.Candidate

/-!
# The scan for candidates

`scanCandidates` walks every day and every stream of the captures directory and lists the segments.
It reads each stream's name as an identity, derives the component again, and refuses the whole
captures directory when the component is not the name (`ScannableStream`).

Entries are taken in the order of their names; since the candidates are sorted and an error carries
nothing, the order in which the directories list them makes no difference.
-/

namespace SolstoneTmux

open Foundations

section Scan

variable {φ : Type}

/-- One entry of a stream's directory: a candidate, or a name that is passed over. -/
def scanSegmentEntry (day stream : Str) (entry : OsName × Node Contents (SegmentFiles φ)) :
    Except Unit (List SegmentCandidate) :=
  match entry.1.toStr with
  | none => .error ()
  | some segment =>
    if !validSegmentName segment then .ok []
    else if !entry.2.isDir then .error ()
    else .ok [⟨day, stream, segment⟩]

/-- One entry of a day's directory. -/
def scanStreamEntry (day : Str) (entry : OsName × Node Contents (StreamFiles φ)) :
    Except Unit (List SegmentCandidate) :=
  match entry.1.toStr with
  | none => .ok []
  | some streamName =>
    match deriveComponent streamName, entry.2 with
    | .error _, _ => .ok []
    | .ok _, .file _ => .ok []
    | .ok _, .special _ => .error ()
    | .ok stream, .directory segments =>
      if stream.asStr ≠ streamName then .error ()
      else collect (scanSegmentEntry day stream.asStr) segments.toList

/-- One entry of the captures directory. -/
def scanDayEntry (entry : OsName × Node Contents (DayFiles φ)) :
    Except Unit (List SegmentCandidate) :=
  match entry.1.toStr with
  | none => .error ()
  | some day =>
    if (parseDay day).isNone then .ok []
    else
      match entry.2 with
      | .directory streams =>
        if (exactComponent day).isNone then .error ()
        else collect (scanStreamEntry day) streams.toList
      | _ => .error ()

/-- The order of the candidates: the latest day first, then the latest segment. -/
def candidateLe (left right : SegmentCandidate) : Bool :=
  if left.day = right.day then
    if left.segment = right.segment then strLe right.stream left.stream
    else strLe right.segment left.segment
  else strLe right.day left.day

/-- `scan_candidates`, in a captures directory that may be missing. -/
def scanCandidates (root : Option (Node Contents (Captures φ))) :
    Except Unit (List SegmentCandidate) :=
  match root with
  | none => .ok []
  | some (.directory captures) =>
    (collect scanDayEntry captures.toList).map (·.insertionSort (candidateLe · ·))
  | some _ => .error ()

/-! ## When the scan succeeds -/

variable {day name : Str} {captures : Captures φ} {days : DayFiles φ} {segments : StreamFiles φ}

/-- The entries of a stream that the scan accepts. -/
def ScannableSegments (segments : StreamFiles φ) : Prop :=
  ∀ entry ∈ segments.toList, ∃ text, entry.1.toStr = some text ∧
    (validSegmentName text = true → entry.2.isDir = true)

theorem exists_scanSegments_iff (day stream : Str) :
    (∃ found, collect (scanSegmentEntry day stream) segments.toList = .ok found) ↔
      ScannableSegments segments := by
  rw [exists_collect_iff]
  refine forall_congr' fun entry => imp_congr_right fun _ => ?_
  rw [scanSegmentEntry]
  cases htext : entry.1.toStr with
  | none => simp
  | some text =>
    by_cases hvalid : validSegmentName text = true
    · by_cases hdir : entry.2.isDir = true
      · simp [hvalid, hdir]
      · simp [hvalid, hdir]
    · simp [hvalid]

/-- The scan of all days succeeds exactly when that of each does. -/
theorem exists_scanCandidates_iff :
    (∃ found, scanCandidates (some (.directory captures)) = .ok found) ↔
      ∀ name node, captures[name]? = some node → ∃ found, scanDayEntry (name, node) = .ok found := by
  have hentries : (∃ found, collect scanDayEntry captures.toList = .ok found) ↔
      ∀ name node, captures[name]? = some node →
        ∃ found, scanDayEntry (name, node) = .ok found := by
    rw [exists_collect_iff]
    exact ⟨fun h name node hget => h (name, node) (Table.mem_toList.mpr hget),
      fun h entry hentry => h entry.1 entry.2 (Table.mem_toList.mp hentry)⟩
  rw [← hentries, scanCandidates]
  constructor
  · rintro ⟨found, hfound⟩
    cases hcollect : collect scanDayEntry captures.toList with
    | error e =>
      rw [hcollect] at hfound
      cases hfound
    | ok all => exact ⟨all, rfl⟩
  · rintro ⟨found, hfound⟩
    exact ⟨_, by rw [hfound]; rfl⟩

/-- A day is its own component. -/
theorem exactComponent_of_parseDay (h : (parseDay day).isSome) : (exactComponent day).isSome := by
  rw [parseDay] at h
  split at h
  · rename_i hdigits
    rw [Bool.and_eq_true, decide_eq_true_eq, List.all_eq_true] at hdigits
    obtain ⟨hlength, hall⟩ := hdigits
    have hlead : ∀ c ∈ day, isLead c = true := by
      intro c hc
      have hc := hall c hc
      rw [isDigit] at hc
      rw [isLead, hc, Bool.or_true]
    refine (exactComponent_isSome_iff day).mpr ⟨?_, ?_, ?_⟩
    · rintro rfl
      cases hlength
    · cases day with
      | nil => rfl
      | cons c s =>
        rw [canonical_cons, hlead c List.mem_cons_self, Bool.true_and, List.all_eq_true]
        exact fun d hd => isRest_of_isLead (hlead d (List.mem_cons_of_mem c hd))
    · rw [hlength]
      decide
  · cases h

/-- The scan of a day succeeds exactly when that of each of its streams does. -/
theorem exists_scanDay_iff {streams : DayFiles φ} (hday : (parseDay day).isSome) :
    (∃ found, scanDayEntry (.str day, .directory streams) = .ok found) ↔
      ∀ name node, streams[name]? = some node →
        ∃ found, scanStreamEntry day (name, node) = .ok found := by
  have hentry : scanDayEntry (.str day, .directory streams) =
      collect (scanStreamEntry day) streams.toList := by
    rw [scanDayEntry]
    simp only [OsName.toStr_str]
    rw [if_neg (by simpa [← Option.isSome_iff_ne_none] using hday),
      if_neg (by simpa [← Option.isSome_iff_ne_none] using exactComponent_of_parseDay hday)]
  rw [hentry, exists_collect_iff]
  exact ⟨fun h name node hget => h (name, node) (Table.mem_toList.mpr hget),
    fun h entry hentry => h entry.1 entry.2 (Table.mem_toList.mp hentry)⟩

/-! ## What the scan finds -/

variable {candidate : SegmentCandidate}

theorem mem_scanSegmentEntry {stream : Str} {name : OsName} {node : Node Contents (SegmentFiles φ)} :
    candidate ∈ given (scanSegmentEntry day stream (name, node)) ↔
      candidate.day = day ∧ candidate.stream = stream ∧ name = .str candidate.segment ∧
        validSegmentName candidate.segment = true ∧ node.isDir = true := by
  obtain ⟨cday, cstream, csegment⟩ := candidate
  cases name with
  | nonUtf8 bytes => simp [scanSegmentEntry, OsName.toStr, given]
  | str segment =>
    by_cases hvalid : validSegmentName segment = true <;> cases hdir : node.isDir <;>
      simp [scanSegmentEntry, hvalid, hdir, given] <;> grind

/-- A candidate that an entry of a day gives bears the entry's name. -/
theorem name_of_mem_scanStreamEntry {entry : OsName × Node Contents (StreamFiles φ)}
    (h : candidate ∈ given (scanStreamEntry day entry)) :
    entry.1 = .str candidate.stream ∧ candidate.day = day := by
  obtain ⟨name, node⟩ := entry
  cases name with
  | nonUtf8 bytes => cases h
  | str streamName =>
    cases hderive : deriveComponent streamName with
    | error e => simp [scanStreamEntry, hderive, given] at h
    | ok stream =>
      cases node with
      | file content => simp [scanStreamEntry, hderive, given] at h
      | special length => simp [scanStreamEntry, hderive, given] at h
      | directory segments =>
        simp only [scanStreamEntry, OsName.toStr_str, hderive] at h
        split at h
        · cases h
        · rename_i hsame
          rw [not_not] at hsame
          cases hcollect : collect (scanSegmentEntry day stream.asStr) segments.toList with
          | error e =>
            rw [hcollect] at h
            cases h
          | ok found =>
            rw [hcollect] at h
            obtain ⟨⟨name, node⟩, -, hgiven⟩ := (mem_collect hcollect).mp h
            obtain ⟨hday, hstream, -⟩ := mem_scanSegmentEntry.mp hgiven
            exact ⟨by rw [hstream, hsame], hday⟩

/-- A candidate that an entry of the captures directory gives bears the entry's name. -/
theorem name_of_mem_scanDayEntry {entry : OsName × Node Contents (DayFiles φ)}
    (h : candidate ∈ given (scanDayEntry entry)) : entry.1 = .str candidate.day := by
  obtain ⟨name, node⟩ := entry
  cases name with
  | nonUtf8 bytes => cases h
  | str day =>
    simp only [scanDayEntry, OsName.toStr_str] at h
    split at h
    · cases h
    · cases node with
      | file content => cases h
      | special length => cases h
      | directory streams =>
        simp only at h
        split at h
        · cases h
        · cases hcollect : collect (scanStreamEntry day) streams.toList with
          | error e =>
            rw [hcollect] at h
            cases h
          | ok found =>
            rw [hcollect] at h
            obtain ⟨entry, -, hgiven⟩ := (mem_collect hcollect).mp h
            rw [(name_of_mem_scanStreamEntry hgiven).2]

/-- The candidates of a day are those of its entry. -/
theorem mem_scanCandidates_iff {found : List SegmentCandidate} {node : Node Contents (DayFiles φ)}
    (hfound : scanCandidates (some (.directory captures)) = .ok found)
    (hday : captures[OsName.str candidate.day]? = some node) :
    candidate ∈ found ↔ candidate ∈ given (scanDayEntry (.str candidate.day, node)) := by
  rw [scanCandidates] at hfound
  cases hcollect : collect scanDayEntry captures.toList with
  | error e =>
    rw [hcollect] at hfound
    cases hfound
  | ok all =>
    rw [hcollect] at hfound
    injection hfound with hfound
    rw [← hfound, List.mem_insertionSort, mem_collect hcollect]
    constructor
    · rintro ⟨⟨name, other⟩, hentry, hgiven⟩
      obtain rfl : name = .str candidate.day := name_of_mem_scanDayEntry hgiven
      rw [Table.mem_toList, hday] at hentry
      cases hentry
      exact hgiven
    · exact fun hgiven => ⟨_, Table.mem_toList.mpr hday, hgiven⟩

end Scan

end SolstoneTmux
