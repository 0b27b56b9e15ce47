import SolstoneTmux.Config
import SolstoneTmux.Recovery.Captures
import SolstoneTmux.Sync.Scan

/-!
# Capture, recovery and upload agree on stream directories

Capture derives the name of its stream directory from an identity; recovery and the upload scan
take that name for an identity and derive from it again. A directory is read back (`ReadsBack`) when
both passes go to it and neither fails because of it. `readsBack_iff` says for which accepted
configurations this is so: those whose stream is canonical, which every default stream is.
-/

namespace SolstoneTmux

open Foundations Foundations.Prog

/-- The captures directory without one stream directory. -/
def without (captures : Captures Bytes) (day : DayFiles Bytes) (date name : Str) :
    Captures Bytes :=
  captures.insert (.str date) (.directory (day.erase (.str name)))

/-- A stream directory is the one that recovery and the scan go to for its entry, and neither fails
unless it fails without the directory or on what the directory holds. -/
structure ReadBackAt (decoder : Decoder) (listing : Listing) (segmentInterval : ℕ)
    (captures : Captures Bytes) (day : DayFiles Bytes) (date name : Str) (contents : StreamDir) :
    Prop where
  recoveryVisits : streamVisit date (.str name, .directory contents) = some ⟨date, name⟩
  recoveryEnds : CapturesRecover decoder listing segmentInterval captures ↔
    StreamRecovers decoder listing segmentInterval contents ∧
      CapturesRecover decoder listing segmentInterval (without captures day date name)
  recovered : CapturesRecover decoder listing segmentInterval captures →
    streamAt (run [] (recoverCaptureStreams decoder listing segmentInterval)
        (some (.directory captures))).2 ⟨date, name⟩ =
      some (.directory
        (run [] (recoverStream decoder listing .default segmentInterval) contents).2)
  scanEnds : (∃ found, scanCandidates (some (.directory captures)) = .ok found) ↔
    ScannableSegments contents ∧
      ∃ found, scanCandidates (some (.directory (without captures day date name))) = .ok found
  scanned : ∀ found, scanCandidates (some (.directory captures)) = .ok found → ∀ segment,
    ⟨date, name, segment⟩ ∈ found ↔
      validSegmentName segment = true ∧ (contents[OsName.str segment]?).isSome = true

/-- A stream directory with this name is read back wherever it stands. -/
def ReadsBack (decoder : Decoder) (listing : Listing) (segmentInterval : ℕ) (name : Str) : Prop :=
  ∀ (captures : Captures Bytes) (day : DayFiles Bytes) (date : Str) (contents : StreamDir),
    captures[OsName.str date]? = some (.directory day) → validDateName date = true →
      day[OsName.str name]? = some (.directory contents) →
        ReadBackAt decoder listing segmentInterval captures day date name contents

section ReadBack

variable {decoder : Decoder} {listing : Listing} {segmentInterval : ℕ} {captures : Captures Bytes}
  {day : DayFiles Bytes} {date name : Str} {contents : StreamDir} {p q : StreamPath}

/-! ## Recovery -/

theorem streamVisit_of_exact (hexact : (exactComponent name).isSome) :
    streamVisit date (.str name, .directory contents) = some ⟨date, name⟩ := by
  obtain ⟨stream, hstream⟩ := Option.isSome_iff_exists.mp hexact
  obtain ⟨hderive, hname⟩ := exactComponent_eq_some hstream
  exact streamVisit_eq_some.mpr ⟨rfl, rfl, name, stream, rfl, hderive, hname⟩

/-- Only the entry of an exact name leads to it. -/
theorem eq_of_streamVisit (hexact : (exactComponent name).isSome) {entry : OsName}
    {node : Node Contents StreamDir}
    (h : streamVisit date (entry, node) = some ⟨date, name⟩) : entry = .str name := by
  obtain ⟨stream, hstream⟩ := Option.isSome_iff_exists.mp hexact
  obtain ⟨hderive, hname⟩ := exactComponent_eq_some hstream
  obtain ⟨-, -, text, stream', rfl, hderive', hname'⟩ := streamVisit_eq_some.mp h
  rw [deriveComponent_injective hderive' hderive (hname'.trans hname.symm)]

theorem streamAt_without (hdate : captures[OsName.str date]? = some (.directory day))
    (hne : q ≠ ⟨date, name⟩) :
    streamAt (some (.directory (without captures day date name))) q =
      streamAt (some (.directory captures)) q := by
  by_cases hsame : OsName.str date = OsName.str q.date
  · have hstream : OsName.str name ≠ OsName.str q.stream := by
      intro hstream
      injection hsame with hsame
      injection hstream with hstream
      exact hne (by rw [hsame, hstream])
    simp only [streamAt, without, ← hsame, hdate, Table.get_insert_self,
      Table.get_erase_ne hstream]
  · simp only [streamAt, without, Table.get_insert_ne hsame]

theorem exists_streamDirectories_without
    (hdate : captures[OsName.str date]? = some (.directory day)) :
    (∃ paths, streamDirectories captures = .ok paths) ↔
      ∃ paths, streamDirectories (without captures day date name) = .ok paths := by
  rw [exists_streamDirectories_iff, exists_streamDirectories_iff]
  refine forall_congr' fun other => ?_
  by_cases hsame : OsName.str date = OsName.str other
  · rw [without, ← hsame, hdate, Table.get_insert_self]
    simp [Node.isDir]
  · rw [without, Table.get_insert_ne hsame]

/-- The directories that are visited, one of them taken out. -/
theorem mem_streamDirectories_without (hexact : (exactComponent name).isSome)
    (hdate : captures[OsName.str date]? = some (.directory day))
    (hvalid : validDateName date = true)
    (hname : day[OsName.str name]? = some (.directory contents)) {paths rest : List StreamPath}
    (hpaths : streamDirectories captures = .ok paths)
    (hrest : streamDirectories (without captures day date name) = .ok rest) :
    q ∈ paths ↔ q = ⟨date, name⟩ ∨ q ∈ rest := by
  rw [mem_streamDirectories hpaths, mem_streamDirectories hrest]
  by_cases hsame : OsName.str date = OsName.str q.date
  · injection hsame with hsame
    subst hsame
    simp only [without, Table.get_insert_self, hdate, Option.some.injEq, Node.directory.injEq,
      hvalid, true_and]
    constructor
    · rintro ⟨_, entry, node, rfl, hentry, hvisit⟩
      by_cases hsame : OsName.str name = entry
      · subst hsame
        rw [hname] at hentry
        cases hentry
        rw [streamVisit_of_exact hexact] at hvisit
        exact .inl (Option.some.inj hvisit).symm
      · exact .inr ⟨_, entry, node, rfl, by rwa [Table.get_erase_ne hsame], hvisit⟩
    · rintro (hq | ⟨_, entry, node, rfl, hentry, hvisit⟩)
      · refine ⟨_, .str name, .directory contents, rfl, hname, ?_⟩
        rw [hq]
        exact streamVisit_of_exact hexact
      · rw [Table.get_erase] at hentry
        split at hentry
        · cases hentry
        · exact ⟨_, entry, node, rfl, hentry, hvisit⟩
  · have hne : q ≠ ⟨date, name⟩ := fun h => hsame (by rw [h])
    simp only [without, Table.get_insert_ne hsame, hne, false_or]

/-- The path of an exact name is not visited without its directory. -/
theorem not_mem_streamDirectories_without (hexact : (exactComponent name).isSome)
    {rest : List StreamPath}
    (hrest : streamDirectories (without captures day date name) = .ok rest) :
    (⟨date, name⟩ : StreamPath) ∉ rest := by
  rw [mem_streamDirectories hrest]
  rintro ⟨streams, entry, node, hdate, -, hentry, hvisit⟩
  rw [eq_of_streamVisit hexact hvisit] at hentry
  simp only [without, Table.get_insert_self, Option.some.injEq, Node.directory.injEq] at hdate
  rw [← hdate, Table.get_erase_self] at hentry
  cases hentry

theorem capturesRecover_iff_without (hexact : (exactComponent name).isSome)
    (hdate : captures[OsName.str date]? = some (.directory day))
    (hvalid : validDateName date = true)
    (hname : day[OsName.str name]? = some (.directory contents)) :
    CapturesRecover decoder listing segmentInterval captures ↔
      StreamRecovers decoder listing segmentInterval contents ∧
        CapturesRecover decoder listing segmentInterval (without captures day date name) := by
  have hscan : (∃ paths, streamDirectories captures = .ok paths) ↔
      ∃ paths, streamDirectories (without captures day date name) = .ok paths :=
    exists_streamDirectories_without hdate
  have hat : streamAt (some (.directory captures)) ⟨date, name⟩ = some (.directory contents) := by
    simp only [streamAt, hdate, hname]
  rw [capturesRecover_iff, capturesRecover_iff]
  constructor
  · rintro ⟨paths, hpaths, hall⟩
    obtain ⟨rest, hrest⟩ := hscan.mp ⟨paths, hpaths⟩
    have hmem := fun q => mem_streamDirectories_without (q := q) hexact hdate hvalid hname hpaths
      hrest
    refine ⟨?_, rest, hrest, fun q hq => ?_⟩
    · obtain ⟨contents', hat', hends⟩ := hall ⟨date, name⟩ ((hmem _).mpr (.inl rfl))
      rw [hat] at hat'
      cases hat'
      exact hends
    · have hne : q ≠ ⟨date, name⟩ := fun h =>
        not_mem_streamDirectories_without hexact hrest (h ▸ hq)
      rw [streamAt_without hdate hne]
      exact hall q ((hmem q).mpr (.inr hq))
  · rintro ⟨hends, rest, hrest, hall⟩
    obtain ⟨paths, hpaths⟩ := hscan.mpr ⟨rest, hrest⟩
    have hmem := fun q => mem_streamDirectories_without (q := q) hexact hdate hvalid hname hpaths
      hrest
    refine ⟨paths, hpaths, fun q hq => ?_⟩
    rcases (hmem q).mp hq with rfl | hq
    · exact ⟨contents, hat, hends⟩
    · have hne : q ≠ ⟨date, name⟩ := fun h =>
        not_mem_streamDirectories_without hexact hrest (h ▸ hq)
      rw [← streamAt_without hdate hne]
      exact hall q hq

theorem streamAt_recovered (hexact : (exactComponent name).isSome)
    (hdate : captures[OsName.str date]? = some (.directory day))
    (hvalid : validDateName date = true)
    (hname : day[OsName.str name]? = some (.directory contents))
    (hends : CapturesRecover decoder listing segmentInterval captures) :
    streamAt (run [] (recoverCaptureStreams decoder listing segmentInterval)
        (some (.directory captures))).2 ⟨date, name⟩ =
      some (.directory
        (run [] (recoverStream decoder listing .default segmentInterval) contents).2) := by
  obtain ⟨paths, hpaths, -⟩ := capturesRecover_iff.mp hends
  obtain ⟨records, hrecords⟩ := hends
  rw [run_recoverCaptureStreams hpaths] at hrecords ⊢
  refine streamAt_recoverPaths (nodup_streamDirectories hpaths) hrecords ?_ ?_
  · exact (mem_streamDirectories hpaths).mpr
      ⟨day, .str name, _, hdate, hvalid, hname, streamVisit_of_exact hexact⟩
  · simp only [streamAt, hdate, hname]

/-! ## The scan -/

theorem scanStreamEntry_of_exact (hexact : (exactComponent name).isSome) :
    scanStreamEntry date (.str name, .directory contents) =
      collect (scanSegmentEntry date name) contents.toList := by
  obtain ⟨stream, hstream⟩ := Option.isSome_iff_exists.mp hexact
  obtain ⟨hderive, hname⟩ := exactComponent_eq_some hstream
  simp only [scanStreamEntry, OsName.toStr_str, hderive, hname, ne_eq, not_true_eq_false, if_false]

theorem exists_scanCandidates_without (hexact : (exactComponent name).isSome)
    (hdate : captures[OsName.str date]? = some (.directory day)) (hvalid : (parseDay date).isSome)
    (hname : day[OsName.str name]? = some (.directory contents)) :
    (∃ found, scanCandidates (some (.directory captures)) = .ok found) ↔
      ScannableSegments contents ∧
        ∃ found, scanCandidates (some (.directory (without captures day date name))) =
          .ok found := by
  rw [exists_scanCandidates_iff, exists_scanCandidates_iff, Table.forall_get_iff hdate, without,
    Table.forall_get_insert_iff, exists_scanDay_iff hvalid, exists_scanDay_iff hvalid,
    Table.forall_get_iff hname, scanStreamEntry_of_exact hexact, exists_scanSegments_iff, and_assoc]

theorem mem_scanCandidates (hexact : (exactComponent name).isSome)
    (hdate : captures[OsName.str date]? = some (.directory day)) (hvalid : (parseDay date).isSome)
    (hname : day[OsName.str name]? = some (.directory contents)) {found : List SegmentCandidate}
    (hfound : scanCandidates (some (.directory captures)) = .ok found) (segment : Str) :
    ⟨date, name, segment⟩ ∈ found ↔
      validSegmentName segment = true ∧ (contents[OsName.str segment]?).isSome = true := by
  obtain ⟨hsegments, -⟩ :=
    (exists_scanCandidates_without hexact hdate hvalid hname).mp ⟨found, hfound⟩
  obtain ⟨ofDay, hofDay⟩ := exists_scanCandidates_iff.mp ⟨found, hfound⟩ _ _ hdate
  have hday : collect (scanStreamEntry date) day.toList = .ok ofDay := by
    rw [← hofDay]
    simp only [scanDayEntry, OsName.toStr_str]
    rw [if_neg (by simpa [← Option.isSome_iff_ne_none] using hvalid),
      if_neg (by simpa [← Option.isSome_iff_ne_none] using exactComponent_of_parseDay hvalid)]
  obtain ⟨ofStream, hofStream⟩ := (exists_scanSegments_iff date name).mpr hsegments
  rw [mem_scanCandidates_iff hfound hdate, hofDay, given, mem_collect hday]
  have hstream : (∃ entry ∈ day.toList,
      (⟨date, name, segment⟩ : SegmentCandidate) ∈ given (scanStreamEntry date entry)) ↔
        ⟨date, name, segment⟩ ∈ ofStream := by
    have hgiven : given (scanStreamEntry date (.str name, .directory contents)) = ofStream := by
      rw [scanStreamEntry_of_exact hexact, hofStream, given]
    constructor
    · rintro ⟨⟨other, node⟩, hentry, hmem⟩
      obtain rfl : other = .str name := (name_of_mem_scanStreamEntry hmem).1
      rw [Table.mem_toList, hname] at hentry
      cases hentry
      rwa [hgiven] at hmem
    · exact fun hmem => ⟨_, Table.mem_toList.mpr hname, hgiven ▸ hmem⟩
  rw [hstream, mem_collect hofStream]
  constructor
  · rintro ⟨⟨other, node⟩, hentry, hmem⟩
    obtain ⟨-, -, rfl, hsegment, -⟩ := mem_scanSegmentEntry.mp hmem
    rw [Table.mem_toList] at hentry
    exact ⟨hsegment, by rw [hentry]; rfl⟩
  · rintro ⟨hsegment, hsome⟩
    obtain ⟨node, hnode⟩ := Option.isSome_iff_exists.mp hsome
    have hentry := Table.mem_toList.mpr hnode
    obtain ⟨text, htext, hdir⟩ := hsegments _ hentry
    cases htext
    exact ⟨_, hentry, mem_scanSegmentEntry.mpr ⟨rfl, rfl, rfl, hsegment, hdir hsegment⟩⟩

/-! ## Which streams are read back -/

theorem readsBack_of_exact (hexact : (exactComponent name).isSome) :
    ReadsBack decoder listing segmentInterval name := by
  intro captures day date contents hdate hvalid hname
  have hday : (parseDay date).isSome := by rwa [← validDateName_eq]
  exact ⟨streamVisit_of_exact hexact, capturesRecover_iff_without hexact hdate hvalid hname,
    streamAt_recovered hexact hdate hvalid hname,
    exists_scanCandidates_without hexact hdate hday hname,
    fun found hfound segment => mem_scanCandidates hexact hdate hday hname hfound segment⟩

theorem exact_of_readsBack (h : ReadsBack decoder listing segmentInterval name) :
    (exactComponent name).isSome := by
  have hat := h ((∅ : Captures Bytes).insert (.str "20260101".toList)
      (.directory ((∅ : DayFiles Bytes).insert (.str name) (.directory ∅)))) _ "20260101".toList ∅
    (Table.get_insert_self _ _ _) (by decide) (Table.get_insert_self _ _ _)
  obtain ⟨-, -, text, stream, htext, hderive, hstream⟩ :=
    streamVisit_eq_some.mp hat.recoveryVisits
  injection htext with htext
  subst htext
  rw [exactComponent, hderive]
  simp only at hstream
  simp [hstream]

/-- The component of an identity is exact when the identity is canonical. -/
theorem exact_iff_canonical {identity : Str} {stream : DerivedName}
    (h : deriveComponent identity = .ok stream) :
    (exactComponent stream.asStr).isSome ↔ canonical identity = true := by
  obtain ⟨hne, hcomponent⟩ := deriveComponent_ok h
  rw [exactComponent_isSome_iff, hcomponent]
  constructor
  · rintro ⟨-, hcanonical, -⟩
    by_contra hescaped
    rw [component, if_neg hescaped] at hcanonical
    exact not_mem_of_all_isRest (all_isRest_of_canonical hcanonical) (c := '~') (by decide)
      (by simp)
  · intro hcanonical
    have hbounded := stream.bounded
    rw [hcomponent, component_of_canonical hcanonical] at hbounded
    rw [component_of_canonical hcanonical]
    exact ⟨hne, hcanonical, (length_le_length_utf8 identity).trans hbounded⟩

/-- A stream that a configuration is accepted with is read back exactly when its identity, if it is
configured, is canonical. -/
theorem readsBack_iff {toLowercase : Str → Str} {file : ConfigFile} {hostname : Str}
    {config : RuntimeConfig} (h : fromConfigFile toLowercase file hostname = .ok config) :
    ReadsBack decoder listing segmentInterval config.stream.asStr ↔
      ∀ identity, file.stream = some identity → canonical identity = true := by
  obtain ⟨identity, hidentity, hderive⟩ := stream_fromConfigFile h
  have hexact : ReadsBack decoder listing segmentInterval config.stream.asStr ↔
      canonical identity = true :=
    ⟨fun h => (exact_iff_canonical hderive).mp (exact_of_readsBack h),
      fun h => readsBack_of_exact ((exact_iff_canonical hderive).mpr h)⟩
  rw [hexact]
  rw [streamIdentity] at hidentity
  cases hstream : file.stream with
  | some configured =>
    rw [hstream] at hidentity
    cases hidentity
    simp
  | none =>
    rw [hstream] at hidentity
    exact iff_of_true (canonical_defaultStream hidentity) nofun

end ReadBack

/-- A configuration with an upper-case stream. -/
def upperCaseConfig : ConfigFile where
  stream := some "Laptop".toList
  captureInterval := 1
  segmentInterval := 300
  cacheRetentionDays := 30
  statusIndicator := true
  paneTitle := true
  workingDirectory := true
  executable := true
  source := .absent
  outputSessions := []

/-- The captures directory after its stream directory has been created. -/
def upperCaseCaptures : Captures Bytes :=
  (∅ : Captures Bytes).insert (.str "20260101".toList)
    (.directory ((∅ : DayFiles Bytes).insert (.str "Laptop~4c6170746f70".toList) (.directory ∅)))

/-- What the configuration is accepted as. -/
def upperCaseRuntime : RuntimeConfig where
  stream := ⟨"Laptop~4c6170746f70".toList, by decide, by decide, List.all_eq_true.mp (by decide)⟩
  captureInterval := nanosPerSecond
  segmentInterval := 300 * nanosPerSecond
  cacheRetentionDays := 30
  statusIndicator := true
  paneTitle := true
  workingDirectory := true
  executable := true
  source := "tmux".toList
  outputSessions := []

theorem accepts_upperCase (toLowercase : Str → Str) (hostname : Str) :
    fromConfigFile toLowercase upperCaseConfig hostname = .ok upperCaseRuntime := rfl

/-- The stream directory of an accepted configuration makes every start and every scan fail. -/
theorem upperCase_stream_refused :
    fromConfigFile id upperCaseConfig "host".toList = .ok upperCaseRuntime ∧
      (∃ path, (run [] (recoverCaptureStreams .ofEnvelopes .byName upperCaseRuntime.segmentInterval)
        (some (.directory upperCaseCaptures))).1 =
          .raised (.io "inspect stream directory" path .notFound)) ∧
      scanCandidates (some (.directory upperCaseCaptures)) = .error () ∧
      ¬ ReadsBack .ofEnvelopes .byName upperCaseRuntime.segmentInterval
        upperCaseRuntime.stream.asStr := by
  refine ⟨accepts_upperCase _ _, ⟨_, rfl⟩, by rfl, fun h => ?_⟩
  exact absurd (exact_of_readsBack h) (by decide)

theorem readsBack_iff_upperCase :
    ReadsBack .ofEnvelopes .byName upperCaseRuntime.segmentInterval
        upperCaseRuntime.stream.asStr ↔
      ∀ identity, upperCaseConfig.stream = some identity → canonical identity = true :=
  readsBack_iff (accepts_upperCase id "host".toList)

end SolstoneTmux
