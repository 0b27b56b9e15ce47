import SolstoneTmux.Agreement
import SolstoneTmux.Recovery.Others

/-!
# A kill inside an append

`History` is every state of a segment's writer with the log of what it reported, `KilledIn` every
state of the disk in which the process can be killed inside the next append, whose calls worked so
far. `killed_append_recovers` says what startup recovery makes of such a state.
-/

namespace SolstoneTmux

open Foundations Foundations.Prog SegmentLog

/-! ## What was reported -/

/-- The frame that `append_capture` reports under an id. -/
def reportedFrame (capture : CaptureResult) (frameId : ℕ) (timestamp : F64Text) : Frame where
  session := capture.session
  filename := (sessionFile capture.session).getD []
  line := serializeFrame capture frameId timestamp

/-- The states of a segment's writer, as `Written` has them, with the log of the frames that were
reported as appended and of the activity. -/
inductive History (hash : Str → UInt64) (stem : Str) : StreamDir → SegmentState → SegmentLog → Prop
  | create {ts : List Turn} {startWall : OffsetDateTime} {startMonotonic : ℕ}
      {localOffset : UtcOffset} {tz : Option Str} {interval : ℕ} {d d' : StreamDir}
      {seg : SegmentState} (seen : (∀ t ∈ ts, noticed t) ∨ NamesFree d stem)
      (run : run ts (SegmentState.create stem startWall startMonotonic localOffset tz interval) d =
        (.done seg, d')) : History hash stem d' seg .empty
  | unchanged {ts : List Turn} {capture : CaptureResult} {timestamp : F64Text} {now : ℕ}
      {d d' : StreamDir} {seg seg' : SegmentState} {log : SegmentLog}
      (before : History hash stem d seg log)
      (run : run ts (seg.appendCapture hash capture timestamp now : Prog _ _ Empty _) d =
        (.done (seg', .ok .unchanged), d')) : History hash stem d' seg' log
  | appended {ts : List Turn} {capture : CaptureResult} {timestamp : F64Text} {now frameId : ℕ}
      {d d' : StreamDir} {seg seg' : SegmentState} {log : SegmentLog}
      (before : History hash stem d seg log) (elapsed : seg.elapsed now < 2 ^ 64)
      (run : run ts (seg.appendCapture hash capture timestamp now : Prog _ _ Empty _) d =
        (.done (seg', .ok (.appended frameId)), d')) :
      History hash stem d' seg' (log.addFrame (reportedFrame capture frameId timestamp))
  | activity {ts : List Turn} {bytes : Bytes} {now : ℕ} {d d' : StreamDir}
      {seg seg' : SegmentState} {log : SegmentLog} (before : History hash stem d seg log)
      (lines : Complete newline bytes) (elapsed : seg.elapsed now < 2 ^ 64)
      (run : run ts (seg.appendActivity bytes now : Prog _ _ Empty _) d =
        (.done (seg', .ok ()), d')) : History hash stem d' seg' (log.addActivity bytes)

theorem nextFrame_eq_reportedFrame {log : SegmentLog} {capture : CaptureResult} {n : DerivedName}
    (hn : deriveComponent capture.session = .ok n) (timestamp : F64Text) :
    nextFrame log capture n timestamp =
      reportedFrame capture (log.frames.length + 1) timestamp := by
  rw [nextFrame, reportedFrame, sessionFile, hn]
  rfl

/-- Every state of the writer records the log of what it reported. -/
theorem History.records {hash : Str → UInt64} {stem : Str} {d : StreamDir} {seg : SegmentState}
    {log : SegmentLog} (decoder : Decoder) (h : History hash stem d seg log) :
    (∃ members, Records decoder stem d seg log members) ∧
      LengthAdmitted (· < 2 ^ 64) stem seg.metadata := by
  induction h with
  | @create _ _ _ _ _ interval _ _ _ seen hrun =>
    obtain ⟨hrecords, hlength⟩ := records_of_create decoder seen hrun
    exact ⟨⟨_, hrecords⟩, 0, interval, .inl rfl, hlength⟩
  | @unchanged ts capture timestamp now d d' seg seg' log _ hrun ih =>
    obtain ⟨⟨members, hrec⟩, hlength⟩ := ih
    have hwp : wp anyTurn (seg.appendCapture hash capture timestamp now : Prog _ _ Empty _)
        (fun r s => r = .done (seg', .ok .unchanged) → seg' = seg ∧ s = d) d := by
      refine wp_appendCapture hrec ?_ (fun _ hr => by cases hr) ?_ (fun _ _ _ _ _ hr => by cases hr)
        (fun _ hr => by cases hr) (fun _ _ _ _ hr => by cases hr) (fun _ _ hr => by cases hr)
      · intro hr
        cases hr
        exact ⟨rfl, rfl⟩
      · intro n _ d' _ _ _ _ _
        exact ⟨fun hr => by (cases hr), fun _ hr => by cases hr⟩
    obtain ⟨rfl, rfl⟩ := wp_run_eq hrun hwp trivial (fun _ _ => trivial) rfl
    exact ⟨⟨members, hrec⟩, hlength⟩
  | @appended ts capture timestamp now frameId d d' seg seg' log _ elapsed hrun ih =>
    obtain ⟨⟨members, hrec⟩, -⟩ := ih
    have hwp : wp anyTurn (seg.appendCapture hash capture timestamp now : Prog _ _ Empty _)
        (fun r s => r = .done (seg', .ok (.appended frameId)) →
          (∃ members, Records decoder stem s seg'
            (log.addFrame (reportedFrame capture frameId timestamp)) members) ∧
              LengthAdmitted (· < 2 ^ 64) stem seg'.metadata) d := by
      refine wp_appendCapture hrec (fun hr => by cases hr) (fun _ hr => by cases hr) ?_
        (fun _ _ _ _ _ hr => by cases hr) (fun _ hr => by cases hr)
        (fun _ _ _ _ hr => by cases hr) (fun _ _ hr => by cases hr)
      intro n after d' hn _ htimed _ hrec'
      refine ⟨fun hr => ?_, fun _ hr => by cases hr⟩
      cases hr
      rw [nextFrame_eq_reportedFrame hn] at hrec'
      exact ⟨⟨_, hrec'⟩, _, _, .inr elapsed, htimed.length⟩
    exact wp_run_eq hrun hwp trivial (fun _ _ => trivial) rfl
  | @activity ts bytes now d d' seg seg' log _ lines elapsed hrun ih =>
    obtain ⟨⟨members, hrec⟩, hlength⟩ := ih
    have hwp : wp anyTurn (seg.appendActivity bytes now : Prog _ _ Empty _)
        (fun r s => r = .done (seg', .ok ()) →
          (∃ members, Records decoder stem s seg' (log.addActivity bytes) members) ∧
            LengthAdmitted (· < 2 ^ 64) stem seg'.metadata) d := by
      refine wp_appendActivity hrec lines ?_ (fun _ hr => by cases hr) ?_
        (fun _ _ hr => by cases hr) (fun _ hr => by cases hr) (fun _ _ _ _ hr => by cases hr)
        (fun _ _ hr => by cases hr)
      · intro hnil hr
        cases hr
        refine ⟨⟨members, ?_⟩, hlength⟩
        rwa [addActivity, hnil, List.append_nil]
      · intro after d' _ htimed _ hrec'
        refine ⟨fun hr => ?_, fun _ hr => by cases hr⟩
        cases hr
        exact ⟨⟨_, hrec'⟩, _, _, .inr elapsed, htimed.length⟩
    exact wp_run_eq hrun hwp trivial (fun _ _ => trivial) rfl

/-! ## The kill -/

/-- The append that the process is killed in. -/
inductive InFlight
  | capture (capture : CaptureResult) (timestamp : F64Text)
  | activity (bytes : Bytes)

namespace InFlight

/-- The log with what the append adds. -/
def grown (log : SegmentLog) : InFlight → SegmentLog
  | capture c timestamp => log.addFrame (reportedFrame c (log.frames.length + 1) timestamp)
  | activity bytes => log.addActivity bytes

/-- The bytes of the session of a frame that are recorded. -/
def recorded (log : SegmentLog) : InFlight → Bytes
  | capture c _ => log.bytesOf c.session
  | activity _ => []

/-- The bytes of the session's file on disk. -/
def onFile (stem : Str) (d : StreamDir) : InFlight → Option Bytes
  | capture c _ => (sessionFile c.session).bind fun filename =>
    (segmentMembers d (.str (incompleteName stem))).bind fun members => memberBytes members filename
  | activity _ => none

end InFlight

/-- The process was killed in an append whose calls worked so far. -/
inductive KilledIn (hash : Str → UInt64) (seg : SegmentState) (d : StreamDir) :
    InFlight → StreamDir → Prop
  | capture {ts : List Turn} {capture : CaptureResult} {timestamp : F64Text} {now : ℕ}
      {d' : StreamDir} (works : ∀ t ∈ ts, noFailure t) (elapsed : seg.elapsed now < 2 ^ 64)
      (run : run ts (seg.appendCapture hash capture timestamp now : Prog _ _ Empty _) d =
        (.killed, d')) : KilledIn hash seg d (.capture capture timestamp) d'
  | activity {ts : List Turn} {bytes : Bytes} {now : ℕ} {d' : StreamDir}
      (works : ∀ t ∈ ts, noFailure t) (lines : Complete newline bytes)
      (elapsed : seg.elapsed now < 2 ^ 64)
      (run : run ts (seg.appendActivity bytes now : Prog _ _ Empty _) d = (.killed, d')) :
      KilledIn hash seg d (.activity bytes) d'

/-- The states of the disk at a kill: untouched, with a part of the new bytes, or with the append
recorded. -/
inductive DiskAt (decoder : Decoder) (stem : Str) (log : SegmentLog) (seg : SegmentState)
    (members : SegmentDir) (d : StreamDir) : InFlight → StreamDir → Prop
  | untouched {a : InFlight} : DiskAt decoder stem log seg members d a d
  | partly {capture : CaptureResult} {timestamp : F64Text} {n : DerivedName} (k : ℕ)
      (component : deriveComponent capture.session = .ok n)
      (id : log.frames.length + 1 ≤ u64Max) :
      DiskAt decoder stem log seg members d (.capture capture timestamp)
        (seg.storage.withFile d members n.sessionFilename (log.bytesOf capture.session ++
          (reportedFrame capture (log.frames.length + 1) timestamp).line.take k))
  | partlyActivity {bytes : Bytes} (k : ℕ) :
      DiskAt decoder stem log seg members d (.activity bytes)
        (seg.storage.withFile d members (activityFilename stem) (log.activity ++ bytes.take k))
  | recorded {a : InFlight} {d' : StreamDir} {seg' : SegmentState} {members' : SegmentDir}
      (records : Records decoder stem d' seg' (a.grown log) members')
      (length : LengthAdmitted (· < 2 ^ 64) stem seg'.metadata) :
      DiskAt decoder stem log seg members d a d'

section Kill

variable {decoder : Decoder} {listing : Listing} {hash : Str → UInt64} {stem : Str}
  {log : SegmentLog} {seg : SegmentState} {members : SegmentDir} {d d' : StreamDir} {a : InFlight}
  {interval : ℕ}

theorem KilledIn.diskAt (hrec : Records decoder stem d seg log members)
    (h : KilledIn hash seg d a d') : DiskAt decoder stem log seg members d a d' := by
  cases h with
  | @capture ts capture timestamp now d' works elapsed hrun =>
    have hwp : wp noFailure (seg.appendCapture hash capture timestamp now : Prog _ _ Empty _)
        (fun r s => r = .killed →
          DiskAt decoder stem log seg members d (.capture capture timestamp) s) d := by
      refine wp_appendCapture hrec (fun hr => by cases hr) (fun _ hr => by cases hr) ?_ ?_
        (fun _ _ => .untouched) (fun hf => absurd hf not_canFail_noFailure)
        (fun hf => absurd hf not_canFail_noFailure)
      · intro n after d' hn _ htimed _ hrec'
        rw [nextFrame_eq_reportedFrame hn] at hrec'
        exact ⟨fun hr => by (cases hr),
          fun _ _ => .recorded hrec' ⟨_, _, .inr elapsed, htimed.length⟩⟩
      · intro n k hn hid _ _
        rw [nextFrame_eq_reportedFrame hn]
        exact .partly k hn hid
    exact wp_run_eq hrun hwp trivial works rfl
  | @activity ts bytes now d' works lines elapsed hrun =>
    have hwp : wp noFailure (seg.appendActivity bytes now : Prog _ _ Empty _)
        (fun r s => r = .killed →
          DiskAt decoder stem log seg members d (.activity bytes) s) d := by
      refine wp_appendActivity hrec lines (fun _ hr => by cases hr) (fun _ hr => by cases hr) ?_
        (fun k _ _ => .partlyActivity k) (fun _ _ => .untouched)
        (fun hf => absurd hf not_canFail_noFailure) (fun hf => absurd hf not_canFail_noFailure)
      intro after d' _ htimed _ hrec'
      exact ⟨fun hr => by (cases hr),
        fun _ _ => .recorded hrec' ⟨_, _, .inr elapsed, htimed.length⟩⟩
    exact wp_run_eq hrun hwp trivial works rfl

/-! ## What is on the disk -/

theorem Records.isOnDisk (h : Records decoder stem d seg log members)
    (hlength : LengthAdmitted (· < 2 ^ 64) stem seg.metadata) :
    OnDisk decoder stem log seg.metadata members d where
  wellFormed := h.wellFormed
  metadata := h.metadata
  recorded := recorded_of_admitted hlength
  source := segmentMembers_eq_some.mp h.segment
  metaFile := h.onDisk

theorem Records.withFile_meta (h : Records decoder stem d seg log members) (filename : Str)
    (b : Bytes) : (seg.storage.withFile d members filename b)[OsName.str (incompleteMetaName stem)]? =
      d[OsName.str (incompleteMetaName stem)]? := by
  rw [FileStorage.withFile, h.storageDir, Table.get_insert_ne (incomplete_ne_meta _ _)]

theorem Records.withFile_isOnDisk (h : Records decoder stem d seg log members)
    (hlength : LengthAdmitted (· < 2 ^ 64) stem seg.metadata) (filename : Str) (b : Bytes) :
    OnDisk decoder stem log seg.metadata (members.insert (.str filename) (.file b))
      (seg.storage.withFile d members filename b) where
  wellFormed := h.wellFormed
  metadata := h.metadata
  recorded := recorded_of_admitted hlength
  source := by rw [FileStorage.withFile, h.storageDir, Table.get_insert_self]
  metaFile := by rw [h.withFile_meta, h.onDisk]

/-- Files that hold a log are what recovery goes on with, whether the log is empty or not. -/
theorem MembersWith.ready {tail : Str → Bytes} {activityTail : Bytes}
    (h : MembersWith log stem tail activityTail members) :
    if log = .empty then OnlyActivity stem members
    else ∃ tail activityTail, MembersWith log stem tail activityTail members := by
  split
  · rename_i hnil
    subst hnil
    intro name node hnode
    obtain ⟨b, rfl⟩ := h.isFile hnode
    refine ⟨b, rfl, fun hne => ?_⟩
    rcases h.only name _ hnode with ⟨p, hp, -⟩ | hname
    · cases hp
    · exact absurd hname hne
  · exact ⟨_, _, h⟩

/-- A session's file with a part of the next line behind its recorded bytes. -/
theorem membersWith_partly (hlog : log.WellFormed decoder) (hmem : MembersOf log stem members)
    {session : Str} {n : DerivedName} (hn : deriveComponent session = .ok n)
    (hknown : log.bytesOf session ≠ []) {t : Bytes} (ht : newline ∉ t) :
    MembersWith log stem (fun s => if s = session then t else []) []
      (members.insert (.str n.sessionFilename) (.file (log.bytesOf session ++ t))) where
  session := by
    intro p hp
    rw [Table.get_insert]
    by_cases hs : p.1.session = session
    · have hfile := hlog.file hp
      rw [hs, sessionFile, hn] at hfile
      rw [if_pos (by rw [Option.some.inj hfile]), if_pos hs, hs]
    · rw [if_neg, if_neg hs, List.append_nil]
      · exact hmem.session p hp
      · intro hname
        have hfile := hlog.file hp
        rw [← OsName.str.inj hname] at hfile
        exact hs (sessionFile_injective hfile (by rw [sessionFile, hn]))
  torn := by
    intro s
    split
    · exact ht
    · exact List.not_mem_nil
  activity := by
    rw [Table.get_insert_ne fun heq =>
      activityFilename_ne_sessionFilename stem n (OsName.str.inj heq).symm]
    exact hmem.holdsLog.activity
  only := by
    intro name node hnode
    rw [Table.get_insert] at hnode
    split at hnode
    · rename_i hname
      refine .inl ?_
      obtain ⟨p, hp⟩ := List.exists_mem_of_ne_nil (log.framesOf session) fun hnil =>
        hknown (by simp [bytesOf, linesOf, hnil])
      obtain ⟨hnum, hsession⟩ := List.mem_filter.mp hp
      have hfile := hlog.file hnum
      rw [of_decide_eq_true hsession, sessionFile, hn] at hfile
      exact ⟨p, hnum, by rw [← hname, Option.some.inj hfile]⟩
    · exact hmem.only name node hnode

/-- The activity file with a part of the next lines behind its recorded bytes. -/
theorem membersWith_partlyActivity (hlog : log.WellFormed decoder)
    (hmem : MembersOf log stem members) (t : Bytes) :
    MembersWith log stem (fun _ => []) t
      (members.insert (.str (activityFilename stem)) (.file (log.activity ++ t))) where
  session := by
    intro p hp
    obtain ⟨n, -, hn⟩ := sessionFile_eq_some (hlog.file hp)
    rw [Table.get_insert_ne fun heq =>
      activityFilename_ne_sessionFilename stem n (hn ▸ OsName.str.inj heq)]
    exact hmem.holdsLog.session p hp
  torn _ := List.not_mem_nil
  activity := .inl (Table.get_insert_self _ _ _)
  only := by
    intro name node hnode
    rw [Table.get_insert] at hnode
    split at hnode
    · rename_i hname
      exact .inr hname.symm
    · exact hmem.only name node hnode

end Kill

/-- A part of a line with a line feed is the whole line. -/
theorem take_eq_of_newline {line : Bytes} (h : IsLine newline line) {k : ℕ}
    (hk : newline ∈ line.take k) : line.take k = line := by
  obtain ⟨body, rfl, hbody⟩ := h
  refine List.take_of_length_le ?_
  by_contra hlt
  rw [Nat.not_le, List.length_append, List.length_singleton] at hlt
  rw [List.take_append_of_le_length (by omega)] at hk
  exact hbody (List.mem_of_mem_take hk)

/-! ## Recovery after the kill -/

/-- The frame's line is complete in a file whose session has recorded frames, but the metadata does
not record it. -/
def LineUnrecorded (stem : Str) (log : SegmentLog) (a : InFlight) (before d : StreamDir) : Prop :=
  d[OsName.str (incompleteMetaName stem)]? = before[OsName.str (incompleteMetaName stem)]? ∧
    a.recorded log ≠ [] ∧ ∃ b, a.onFile stem d = some b ∧ newline ∈ b.drop (a.recorded log).length

/-- The append has made a session's first file, of which the metadata does not know. An empty file
in a segment without frames and activity is not meant. -/
def FirstFile (stem : Str) (log : SegmentLog) (a : InFlight) (before d : StreamDir) : Prop :=
  d[OsName.str (incompleteMetaName stem)]? = before[OsName.str (incompleteMetaName stem)]? ∧
    a.recorded log = [] ∧ ∃ b, a.onFile stem d = some b ∧ (log ≠ .empty ∨ b ≠ [])

section Recovery

variable {decoder : Decoder} {listing : Listing} {hash : Str → UInt64} {stem : Str}
  {log : SegmentLog} {seg : SegmentState} {members : SegmentDir} {d d' : StreamDir} {a : InFlight}
  {interval : ℕ}

theorem onFile_capture {capture : CaptureResult} {timestamp : F64Text} {n : DerivedName}
    (hn : deriveComponent capture.session = .ok n)
    (hsource : d[OsName.str (incompleteName stem)]? = some (.directory members)) :
    (InFlight.capture capture timestamp).onFile stem d = memberBytes members n.sessionFilename := by
  rw [InFlight.onFile, sessionFile, hn, segmentMembers_eq_some.mpr hsource]
  rfl

theorem onFile_partly {capture : CaptureResult} {timestamp : F64Text} {n : DerivedName}
    (hn : deriveComponent capture.session = .ok n) {b : Bytes}
    (hsource : d[OsName.str (incompleteName stem)]? =
      some (.directory (members.insert (.str n.sessionFilename) (.file b)))) :
    (InFlight.capture capture timestamp).onFile stem d = some b := by
  rw [onFile_capture hn hsource, memberBytes, Table.get_insert_self]

/-- While nothing was written, a session's file has no line behind its recorded bytes. -/
theorem Records.not_lineUnrecorded (h : Records decoder stem d seg log members) :
    ¬ LineUnrecorded stem log a d d := by
  rintro ⟨-, hknown, b, hb, hline⟩
  cases a with
  | activity bytes => exact hknown rfl
  | capture capture timestamp =>
    cases hn : deriveComponent capture.session with
    | error e => simp [InFlight.onFile, sessionFile, hn] at hb
    | ok n =>
      rw [onFile_capture hn (segmentMembers_eq_some.mp h.segment), memberBytes] at hb
      rcases member_of_log h.wellFormed h.members hn with hfile | ⟨hfile, -⟩
      · rw [hfile] at hb
        cases hb
        rw [InFlight.recorded, List.drop_length] at hline
        cases hline
      · rw [hfile] at hb
        cases hb

/-- A frame that is recorded has changed the metadata. -/
theorem Records.metadata_changed {capture : CaptureResult} {timestamp : F64Text}
    {seg' : SegmentState} {members' : SegmentDir} (h : Records decoder stem d seg log members)
    (h' : Records decoder stem d' seg'
      ((InFlight.capture capture timestamp).grown log) members') :
    d'[OsName.str (incompleteMetaName stem)]? ≠ d[OsName.str (incompleteMetaName stem)]? := by
  intro hsame
  have hlast := h'.metadata.lastId
  rw [h'.onDisk, h.onDisk] at hsame
  rw [Contents.metadata.inj (Node.file.inj (Option.some.inj hsame)), h.metadata.lastId, InFlight.grown, addFrame] at hlast
  simp at hlast

/-- **A segment recovers from a kill inside an append.** Unless the kill came between the complete
line and its metadata, the segment is finalized with all that was reported, perhaps with the append
in flight, or removed when it is empty. In between, it is moved aside with the frame in flight. -/
theorem killed_append_recovers (decoder : Decoder) (listing : Listing) (interval : ℕ)
    (hstem : validTimeName stem = true) (h : History hash stem d seg log)
    (hkill : KilledIn hash seg d a d') (hfirst : ¬ FirstFile stem log a d d') :
    (¬ LineUnrecorded stem log a d d' → ∃ final, (final = log ∨ final = a.grown log) ∧
      Arrives stem d' (candidateStems d') (Concluded stem interval final d')
        (run [] (recoverStream decoder listing .default interval) d')) ∧
    (LineUnrecorded stem log a d d' →
      (∃ members, d'[OsName.str (incompleteName stem)]? = some (.directory members) ∧
        HoldsLog (a.grown log) stem members) ∧
      Arrives stem d' (candidateStems d') (LeftAside stem interval d')
        (run [] (recoverStream decoder listing .default interval) d')) := by
  obtain ⟨⟨members, hrec⟩, hlength⟩ := h.records decoder
  cases hkill.diskAt hrec with
  | untouched =>
    exact ⟨fun _ => ⟨log, .inl rfl,
      (hrec.isOnDisk hlength).concluded hstem hrec.members.holdsLog.ready⟩,
      fun hline => absurd hline hrec.not_lineUnrecorded⟩
  | @partly capture timestamp n k hn hid =>
    have hdisk := hrec.withFile_isOnDisk hlength n.sessionFilename (log.bytesOf capture.session ++
      (reportedFrame capture (log.frames.length + 1) timestamp).line.take k)
    have hfile : (InFlight.capture capture timestamp).onFile stem _ = _ :=
      onFile_partly hn hdisk.source
    have hmeta := hrec.withFile_meta n.sessionFilename (log.bytesOf capture.session ++
      (reportedFrame capture (log.frames.length + 1) timestamp).line.take k)
    have hframe : FrameOk decoder (nextFrame log capture n timestamp) _ :=
      frameOk_nextFrame hn hid timestamp
    rw [nextFrame_eq_reportedFrame hn] at hframe
    by_cases hknown : log.bytesOf capture.session = []
    · have hnew : log = .empty ∧
          (reportedFrame capture (log.frames.length + 1) timestamp).line.take k = [] := by
        by_contra hnot
        refine hfirst ⟨hmeta, hknown, _, hfile, ?_⟩
        rwa [hknown, List.nil_append, ← not_and_or]
      refine ⟨fun _ => ⟨log, .inl rfl, hdisk.concluded hstem ?_⟩,
        fun hline => absurd hknown hline.2.1⟩
      rw [if_pos hnew.1, hnew.2, hknown, List.append_nil]
      intro name node hnode
      rw [Table.get_insert] at hnode
      split at hnode
      · exact ⟨[], (Option.some.inj hnode).symm, fun _ => rfl⟩
      · have hready := hrec.members.holdsLog.ready
        rw [if_pos hnew.1] at hready
        exact hready name node hnode
    · have hline : LineUnrecorded stem log (.capture capture timestamp) d
          (seg.storage.withFile d members n.sessionFilename (log.bytesOf capture.session ++
            (reportedFrame capture (log.frames.length + 1) timestamp).line.take k)) ↔
          newline ∈ (reportedFrame capture (log.frames.length + 1) timestamp).line.take k := by
        constructor
        · rintro ⟨-, -, b, hb, hmem⟩
          rw [hfile] at hb
          cases hb
          rwa [InFlight.recorded, List.drop_left] at hmem
        · intro hmem
          refine ⟨hmeta, hknown, _, hfile, ?_⟩
          rwa [InFlight.recorded, List.drop_left]
      rw [hline]
      refine ⟨fun hpart => ⟨log, .inl rfl, hdisk.concluded hstem
        (membersWith_partly hrec.wellFormed hrec.members hn hknown hpart).ready⟩, fun hmem => ?_⟩
      obtain ⟨p, hp⟩ := List.exists_mem_of_ne_nil (log.framesOf capture.session) fun hnil =>
        hknown (by simp [bytesOf, linesOf, hnil])
      obtain ⟨hnum, hsession⟩ := List.mem_filter.mp hp
      obtain ⟨session, hs, hsame, hname⟩ := mem_vals_of_numbered hrec.wellFormed hrec.metadata hnum
      rw [of_decide_eq_true hsession] at hsame
      have hfilename := filename_of_log hrec.wellFormed hrec.metadata hs
      rw [hsame, sessionFile, hn] at hfilename
      obtain ⟨f, -, -, -, -, -, hoffset⟩ :=
        sessionMetadata_eq_some (mem_vals_of_log hrec.metadata hs)
      refine ⟨⟨_, hdisk.source, ?_⟩, hdisk.leftAside hstem hs
        (by rw [← Option.some.inj hfilename, Table.get_insert_self]) ?_⟩
      · rw [take_eq_of_newline hframe.isLine hmem]
        have hgrown := membersOf_addFrame hrec.wellFormed hrec.members hframe.file
        rw [show (reportedFrame capture (log.frames.length + 1) timestamp).filename =
          n.sessionFilename by rw [reportedFrame, sessionFile, hn]; rfl] at hgrown
        exact hgrown.holdsLog
      · rw [hoffset, hsame, List.drop_left]
        exact hmem
  | @partlyActivity bytes k =>
    exact ⟨fun _ => ⟨log, .inl rfl, (hrec.withFile_isOnDisk hlength _ _).concluded hstem
      (membersWith_partlyActivity hrec.wellFormed hrec.members _).ready⟩,
      fun hline => absurd rfl hline.2.1⟩
  | @recorded a d' seg' members' hrec' hlength' =>
    refine ⟨fun _ => ⟨a.grown log, .inr rfl,
      (hrec'.isOnDisk hlength').concluded hstem hrec'.members.holdsLog.ready⟩, fun hline => ?_⟩
    cases a with
    | activity bytes => exact absurd rfl hline.2.1
    | capture capture timestamp => exact absurd hline.1 (hrec.metadata_changed hrec')

end Recovery

/-! ## Two kills -/

/-- A hash that tells captures apart by their length. -/
def lengthHash (s : Str) : UInt64 := UInt64.ofNat s.length

/-- A capture of a session that shows a second window. -/
def otherCapture (session : Str) : CaptureResult :=
  { blankCapture session with
    window := { id := "@10".toList, index := 0, name := [], active := true } }

set_option maxRecDepth 20000 in
theorem killed_append_recovers_torn : ∃ d seg log d' final,
    History lengthHash "120000".toList d seg log ∧
      Arrives "120000".toList d' (candidateStems d')
        (Concluded "120000".toList 300000000000 final d')
        (run [] (recoverStream .ofEnvelopes .byName .default 300000000000) d') := by
  have hcreate : History lengthHash "120000".toList _ _ _ := .create (.inl (by simp))
    (rfl : run [] (SegmentState.create "120000".toList ⟨0, rfl⟩ 0 .utc none 300000000000) ∅ =
      (.done _, _))
  have hcapture := hcreate.appended (by decide)
    (rfl : run [] (SegmentState.appendCapture lengthHash _ (blankCapture "main".toList)
      ⟨"0.0".toList, F64Text.valid_zero⟩ 1000000000) _ = (.done (_, .ok (.appended 1)), _))
  -- The process is killed after five bytes of the second line.
  have hrecover := (killed_append_recovers .ofEnvelopes .byName 300000000000 (by decide) hcapture
    (.capture (by simp [noFailure]) (by decide)
      (rfl : run [Turn.ok, .ok, .ok, .kill 5] (SegmentState.appendCapture lengthHash _
        (otherCapture "main".toList) ⟨"0.0".toList, F64Text.valid_zero⟩ 2000000000) _ =
          (.killed, _)))
    (fun hfirst => by cases hfirst.2.1)).1 ?_
  · obtain ⟨final, -, harrives⟩ := hrecover
    exact ⟨_, _, _, _, final, hcapture, harrives⟩
  · rintro ⟨-, -, b, hb, hline⟩
    cases hb
    revert hline
    decide

set_option maxRecDepth 20000 in
/-- A kill between the complete line and its metadata has the segment quarantined, and so has a kill
after a second session's file was made. -/
theorem killed_append_quarantined : ∃ d seg log,
    History lengthHash "120000".toList d seg log ∧
      (∃ a d', KilledIn lengthHash seg d a d' ∧
        (run [] (recoverStream .ofEnvelopes .byName .default 300000000000) d').1 =
          .done [⟨[.str "120000.failed".toList], .quarantine,
            "complete or multiline bytes exist beyond the durable offset"⟩]) ∧
      ∃ a d', KilledIn lengthHash seg d a d' ∧
        (run [] (recoverStream .ofEnvelopes .byName .default 300000000000) d').1 =
          .done [⟨[.str "120000.failed".toList], .quarantine,
            "unknown or non-regular file in segment"⟩] := by
  have hcreate : History lengthHash "120000".toList _ _ _ := .create (.inl (by simp))
    (rfl : run [] (SegmentState.create "120000".toList ⟨0, rfl⟩ 0 .utc none 300000000000) ∅ =
      (.done _, _))
  have hcapture := hcreate.appended (by decide)
    (rfl : run [] (SegmentState.appendCapture lengthHash _ (blankCapture "main".toList)
      ⟨"0.0".toList, F64Text.valid_zero⟩ 1000000000) _ = (.done (_, .ok (.appended 1)), _))
  refine ⟨_, _, _, hcapture, ⟨_, _, .capture (by simp [noFailure]) (by decide)
    (rfl : run [Turn.ok, .ok, .ok, .kill 1000] (SegmentState.appendCapture lengthHash _
      (otherCapture "main".toList) ⟨"0.0".toList, F64Text.valid_zero⟩ 2000000000) _ =
        (.killed, _)), ?_⟩, _, _, .capture (by simp [noFailure]) (by decide)
    (rfl : run [Turn.ok, .ok, .kill 0] (SegmentState.appendCapture lengthHash _
      (otherCapture "side".toList) ⟨"0.0".toList, F64Text.valid_zero⟩ 2000000000) _ =
        (.killed, _)), ?_⟩
  · rfl
  · rfl

end SolstoneTmux
