import SolstoneTmux.Writer

/-!
# Writer and validator agree

The segment writer and startup recovery are two implementations of one format. `Written` is every
state that the writer reaches from the creation of a segment by appends that work; `written_agrees`
says that the validator of recovery accepts each of them as exactly what its metadata records.
-/

namespace SolstoneTmux

open Foundations Foundations.Prog SegmentLog

/-- Neither of the names of an open segment is in use. -/
def NamesFree (d : StreamDir) (stem : Str) : Prop :=
  d[OsName.str (incompleteName stem)]? = none ∧ d[OsName.str (incompleteMetaName stem)]? = none

/-- The states of the writer: a segment was created under a stem, and then frames and activity were
appended to it at times that are `admitted` after its start. Calls may have failed on the way
wherever the operation as a whole worked; but where the segment's names are in use, creation sees
that. -/
inductive Written (hash : Str → UInt64) (admitted : ℕ → Prop) (stem : Str) :
    StreamDir → SegmentState → Prop
  | create {ts : List Turn} {startWall : OffsetDateTime} {startMonotonic : ℕ}
      {localOffset : UtcOffset} {tz : Option Str} {interval : ℕ} {d d' : StreamDir}
      {seg : SegmentState} (seen : (∀ t ∈ ts, noticed t) ∨ NamesFree d stem)
      (run : run ts (SegmentState.create stem startWall startMonotonic localOffset tz interval) d =
        (.done seg, d')) : Written hash admitted stem d' seg
  | capture {ts : List Turn} {capture : CaptureResult} {timestamp : F64Text} {now : ℕ}
      {d d' : StreamDir} {seg seg' : SegmentState} {outcome : AppendOutcome}
      (before : Written hash admitted stem d seg) (elapsed : admitted (seg.elapsed now))
      (run : run ts (seg.appendCapture hash capture timestamp now : Prog _ _ Empty _) d =
        (.done (seg', .ok outcome), d')) : Written hash admitted stem d' seg'
  | activity {ts : List Turn} {bytes : Bytes} {now : ℕ} {d d' : StreamDir}
      {seg seg' : SegmentState} (before : Written hash admitted stem d seg)
      (lines : Complete newline bytes) (elapsed : admitted (seg.elapsed now))
      (run : run ts (seg.appendActivity bytes now : Prog _ _ Empty _) d =
        (.done (seg', .ok ()), d')) : Written hash admitted stem d' seg'

/-! ## Every written state records a log -/

/-- The metadata records the length of the segment at an admitted time, or that of its start. -/
def LengthAdmitted (admitted : ℕ → Prop) (stem : Str) (m : SegmentMetadata) : Prop :=
  ∃ elapsed interval, (elapsed = 0 ∨ admitted elapsed) ∧
    LengthOf stem m (segmentLength elapsed interval * nanosPerSecond)

/-- The open segment records some log. -/
def Reached (decoder : Decoder) (admitted : ℕ → Prop) (stem : Str) (d : StreamDir)
    (seg : SegmentState) : Prop :=
  (∃ log members, Records decoder stem d seg log members) ∧
    LengthAdmitted admitted stem seg.metadata

section Reached

variable {hash : Str → UInt64} {admitted : ℕ → Prop} {stem : Str} {d d' : StreamDir}
  {seg seg' : SegmentState}

/-- A segment that was created records the empty log. -/
theorem records_of_create (decoder : Decoder) {ts : List Turn}
    (hseen : (∀ t ∈ ts, noticed t) ∨ NamesFree d stem) {startWall : OffsetDateTime}
    {startMonotonic : ℕ} {localOffset : UtcOffset} {tz : Option Str} {interval : ℕ}
    (h : run ts (SegmentState.create stem startWall startMonotonic localOffset tz interval) d =
      (.done seg, d')) :
    Records decoder stem d' seg .empty ∅ ∧
      LengthOf stem seg.metadata (segmentLength 0 interval * nanosPerSecond) := by
  by_cases hfree : NamesFree d stem
  · have hwp : wp anyTurn
        (SegmentState.create stem startWall startMonotonic localOffset tz interval)
        (fun r s => ∀ seg, r = .done seg → Records decoder stem s seg .empty ∅ ∧
          LengthOf stem seg.metadata (segmentLength 0 interval * nanosPerSecond)) d := by
      refine wp_create hfree.1 hfree.2 ?_ (fun _ _ _ _ hr => by cases hr)
      rintro _ _ _ _ _ rfl rfl rfl rfl rfl
      refine ⟨fun _ => ⟨?_, ?_, ?_, ?_⟩, fun seg hr => ?_⟩
      all_goals try exact fun _ hr => by cases hr
      cases hr
      exact ⟨records_created decoder, lengthOf_opened _ _ _ _ _⟩
    exact wp_run_eq h hwp trivial (fun _ _ => trivial) seg rfl
  · have hwp : wp noticed
        (SegmentState.create stem startWall startMonotonic localOffset tz interval)
        (fun r _ => ∀ seg, r ≠ .done seg) d := by
      refine wp_create_collision not_blind_noticed ?_ (fun _ _ hr => by cases hr)
        (fun _ hr => by cases hr)
      rcases not_and_or.mp hfree with hsome | hsome
      · exact .inl (Option.isSome_iff_ne_none.mpr hsome)
      · exact .inr (Option.isSome_iff_ne_none.mpr hsome)
    exact absurd rfl (wp_run_eq h hwp noticed_default (hseen.resolve_right hfree) seg)

theorem reached_of_create (decoder : Decoder) {ts : List Turn}
    (hseen : (∀ t ∈ ts, noticed t) ∨ NamesFree d stem) {startWall : OffsetDateTime}
    {startMonotonic : ℕ} {localOffset : UtcOffset} {tz : Option Str} {interval : ℕ}
    (h : run ts (SegmentState.create stem startWall startMonotonic localOffset tz interval) d =
      (.done seg, d')) : Reached decoder admitted stem d' seg := by
  obtain ⟨hrecords, hlength⟩ := records_of_create decoder hseen h
  exact ⟨⟨_, _, hrecords⟩, 0, interval, .inl rfl, hlength⟩

theorem reached_of_capture {decoder : Decoder} (hr : Reached decoder admitted stem d seg)
    {ts : List Turn} {capture : CaptureResult}
    {timestamp : F64Text} {now : ℕ} {outcome : AppendOutcome}
    (helapsed : admitted (seg.elapsed now))
    (h : run ts (seg.appendCapture hash capture timestamp now : Prog _ _ Empty _) d =
      (.done (seg', .ok outcome), d')) : Reached decoder admitted stem d' seg' := by
  obtain ⟨⟨log, members, hrec⟩, hlength⟩ := hr
  have hwp : wp anyTurn (seg.appendCapture hash capture timestamp now : Prog _ _ Empty _)
      (fun r s => ∀ seg outcome, r = .done (seg, .ok outcome) →
        Reached decoder admitted stem s seg) d := by
    refine wp_appendCapture hrec ?_ (fun _ _ _ hr => by cases hr) ?_
      (fun _ _ _ _ _ _ _ hr => by cases hr) (fun _ _ _ hr => by cases hr)
      (fun _ _ _ _ _ _ hr => by cases hr) (fun _ _ _ _ hr => by cases hr)
    · intro seg outcome hdone
      cases hdone
      exact ⟨⟨_, _, hrec⟩, hlength⟩
    · intro n seg' d' _ _ htimed _ hrec'
      refine ⟨fun seg outcome hdone => ?_, fun _ _ _ hr => by cases hr⟩
      cases hdone
      exact ⟨⟨_, _, hrec'⟩, _, _, .inr helapsed, htimed.length⟩
  exact wp_run_eq h hwp trivial (fun _ _ => trivial) seg' outcome rfl

theorem reached_of_activity {decoder : Decoder} (hr : Reached decoder admitted stem d seg)
    {ts : List Turn} {bytes : Bytes}
    (hlines : Complete newline bytes) {now : ℕ} (helapsed : admitted (seg.elapsed now))
    (h : run ts (seg.appendActivity bytes now : Prog _ _ Empty _) d = (.done (seg', .ok ()), d')) :
    Reached decoder admitted stem d' seg' := by
  obtain ⟨⟨log, members, hrec⟩, hlength⟩ := hr
  have hwp : wp anyTurn (seg.appendActivity bytes now : Prog _ _ Empty _)
      (fun r s => ∀ seg, r = .done (seg, .ok ()) → Reached decoder admitted stem s seg) d := by
    refine wp_appendActivity hrec hlines ?_ (fun _ _ hr => by cases hr) ?_
      (fun _ _ _ hr => by cases hr) (fun _ _ hr => by cases hr)
      (fun _ _ _ _ _ hr => by cases hr) (fun _ _ _ hr => by cases hr)
    · intro _ seg hdone
      cases hdone
      exact ⟨⟨_, _, hrec⟩, hlength⟩
    · intro seg' d' _ htimed _ hrec'
      refine ⟨fun seg hdone => ?_, fun _ _ hr => by cases hr⟩
      cases hdone
      exact ⟨⟨_, _, hrec'⟩, _, _, .inr helapsed, htimed.length⟩
  exact wp_run_eq h hwp trivial (fun _ _ => trivial) seg' rfl

/-- **Every state of the writer records a log.** -/
theorem Written.reached (decoder : Decoder)
    (h : Written hash admitted stem d seg) : Reached decoder admitted stem d seg := by
  induction h with
  | create hts hrun => exact reached_of_create decoder hts hrun
  | capture _ helapsed hrun ih => exact reached_of_capture ih helapsed hrun
  | activity _ hlines helapsed hrun ih => exact reached_of_activity ih hlines helapsed hrun

end Reached

/-! ## Agreement -/

/-- The content of a regular member. -/
def memberBytes (members : SegmentDir) (name : Str) : Option Bytes :=
  match members[OsName.str name]? with
  | some (.file b) => some b
  | _ => none

/-- The frame ids of a session file, line by line. -/
def fileIds (decoder : Decoder) (b : Bytes) : List (Option ℕ) :=
  (splitInclusive newline b).map fun line => frameIdOf decoder line.dropLast

/-- A segment directory is exactly what its metadata records, for the validator and byte by byte. -/
structure Agrees (decoder : Decoder) (listing : Listing) (stem : Str) (m : SegmentMetadata)
    (members : SegmentDir) : Prop where
  consistent : metadataIsConsistent m stem = true
  exact : (validateFiles decoder listing members m).kind = .exact
  sessionLength : ∀ session ∈ m.sessions.vals,
    (memberBytes members session.filename).map List.length = some session.durableOffset
  activityLength : ((memberBytes members (activityFilename stem)).map List.length).getD 0 =
    m.activityDurableOffset
  onlyMembers : ∀ name ∈ listing.order members,
    name = .str (activityFilename stem) ∨ ∃ session ∈ m.sessions.vals, name = .str session.filename
  increasing : ∀ session ∈ m.sessions.vals, ∃ ids : List ℕ, ids.Pairwise (· < ·) ∧
    fileIds decoder ((memberBytes members session.filename).getD []) = ids.map some
  consecutive : (m.sessions.vals.flatMap fun session =>
    fileIds decoder ((memberBytes members session.filename).getD [])).Perm
      ((List.range' 1 m.lastDurableFrameId).map some)

theorem fileIds_flatten {decoder : Decoder} {lines : List Bytes} {ids : List ℕ}
    (h : LinesRead decoder lines ids) : fileIds decoder lines.flatten = ids.map some := by
  rw [fileIds, splitInclusive_flatten h.isLine]
  induction h with
  | nil => rfl
  | cons hl _ ih => rw [List.map_cons, List.map_cons, hl.2, ih]

theorem memberBytes_of_log {log : SegmentLog} {stem : Str} {m : SegmentMetadata}
    {members : SegmentDir} (hmem : MembersOf log stem members) (hm : MetadataOf log stem m)
    {session : SessionMetadata} (h : session ∈ m.sessions.vals) :
    memberBytes members session.filename = some (log.bytesOf session.session) := by
  rw [memberBytes, file_of_log hmem hm h]

theorem Records.agrees {decoder : Decoder} {stem : Str} {d : StreamDir} {seg : SegmentState}
    {log : SegmentLog} {members : SegmentDir} (h : Records decoder stem d seg log members)
    (hstem : validTimeName stem = true)
    (hlength : seg.metadata.finalizedDir = finalizedName stem seg.metadata.elapsedNanos)
    (listing : Listing) : Agrees decoder listing stem seg.metadata members where
  consistent := metadataIsConsistent_of_log hstem h.wellFormed h.metadata hlength
  exact := by rw [validateFiles_of_log hstem h.wellFormed h.metadata h.members]
  sessionLength := by
    intro session hs
    obtain ⟨_, -, -, -, -, -, hoff⟩ := sessionMetadata_eq_some (mem_vals_of_log h.metadata hs)
    rw [memberBytes_of_log h.members h.metadata hs, Option.map_some, hoff]
  activityLength := by
    rw [memberBytes, h.members.activity, h.metadata.activity]
    by_cases hnil : log.activity = []
    · simp [hnil]
    · simp [hnil]
  onlyMembers := by
    intro name hname
    obtain ⟨node, hnode⟩ := Option.isSome_iff_exists.mp ((listing.mem members name).mp hname)
    rcases h.members.only name node hnode with ⟨p, hp, rfl⟩ | hact
    · obtain ⟨session, hs, -, hfile⟩ := mem_vals_of_numbered h.wellFormed h.metadata hp
      exact .inr ⟨session, hs, by rw [hfile]⟩
    · exact .inl hact
  increasing := by
    intro session hs
    refine ⟨_, log.pairwise_idsOf session.session, ?_⟩
    rw [memberBytes_of_log h.members h.metadata hs, Option.getD_some]
    exact fileIds_flatten (linesRead_of_log h.wellFormed _)
  consecutive := by
    have hids : (seg.metadata.sessions.vals.flatMap fun session =>
        fileIds decoder ((memberBytes members session.filename).getD [])) =
          (seg.metadata.sessions.vals.flatMap fun session => log.idsOf session.session).map some := by
      rw [List.map_flatMap]
      refine List.flatMap_congr fun session hs => ?_
      rw [memberBytes_of_log h.members h.metadata hs, Option.getD_some]
      exact fileIds_flatten (linesRead_of_log h.wellFormed _)
    have hperm := idsOf_perm h.metadata
    rw [h.metadata.count, ← h.metadata.lastId] at hperm
    rw [hids]
    exact hperm.map some

/-- A length at an elapsed time below 2⁶⁴ nanoseconds is recorded in full. -/
theorem recorded_of_admitted {stem : Str} {m : SegmentMetadata}
    (h : LengthAdmitted (· < 2 ^ 64) stem m) :
    m.finalizedDir = finalizedName stem m.elapsedNanos := by
  obtain ⟨elapsed, interval, helapsed, hlength⟩ := h
  refine hlength.recorded (segmentLength_le ?_ interval)
  rcases helapsed with rfl | h
  · norm_num
  · exact h

/-- **Writer and validator agree.** In every state of the writer the metadata file holds the
metadata in memory, recovery accepts it, and finds the segment directory to be exactly what it
records. -/
theorem written_agrees (decoder : Decoder) (listing : Listing) {hash : Str → UInt64} {stem : Str}
    (hstem : validTimeName stem = true) {d : StreamDir} {seg : SegmentState}
    (h : Written hash (· < 2 ^ 64) stem d seg) :
    d[OsName.str (incompleteMetaName stem)]? = some (.file (.metadata seg.metadata)) ∧
      ∃ members, d[OsName.str (incompleteName stem)]? = some (.directory members) ∧
        Agrees decoder listing stem seg.metadata members := by
  obtain ⟨⟨log, members, hr⟩, hlength⟩ := h.reached decoder
  exact ⟨hr.onDisk, members, segmentMembers_eq_some.mp hr.segment,
    hr.agrees hstem (recorded_of_admitted hlength) listing⟩

/-- The capture of a session that shows nothing. -/
def blankCapture (session : Str) : CaptureResult where
  session := session
  window := { id := "@1".toList, index := 0, name := [], active := true }
  windows := []
  panes := []
  outputOnly := false

theorem written_agrees_activity : ∃ d seg,
    Written (fun _ => 0) (· < 2 ^ 64) "120000".toList d seg ∧
      d[OsName.str "120000.incomplete.meta".toList]? = some (.file (.metadata seg.metadata)) ∧
        ∃ members, d[OsName.str "120000.incomplete".toList]? = some (.directory members) ∧
          Agrees .ofEnvelopes .byName "120000".toList seg.metadata members := by
  have hcreate : Written (fun _ => 0) (· < 2 ^ 64) "120000".toList _ _ := .create (.inl (by simp))
    (rfl : run [] (SegmentState.create "120000".toList ⟨0, rfl⟩ 0 .utc none 300000000000) ∅ =
      (.done _, _))
  have hcapture := hcreate.capture (by decide)
    (rfl : run [] (SegmentState.appendCapture _ _ (blankCapture "main".toList)
      ⟨"0.0".toList, F64Text.valid_zero⟩ 1000000000) _ = (.done (_, .ok _), _))
  have hactivity := hcapture.activity (by simp [complete_iff_getLast?]) (by decide)
    (rfl : run [] (SegmentState.appendActivity _ [newline] 2000000000) _ = (.done (_, .ok ()), _))
  exact ⟨_, _, hactivity, written_agrees .ofEnvelopes .byName (by decide) hactivity⟩

end SolstoneTmux
