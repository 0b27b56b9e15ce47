import SolstoneTmux.Recovery.Recorded

/-!
# The writer keeps the log

`Records` relates an open segment in memory and its stream directory to the log of what was
appended. Creation establishes it for the empty log, and every append that works extends the log by
the frame or the activity it was given (`Records.appendCapture`, `Records.appendActivity`). The rules `wp_create`,
`wp_appendCapture` and `wp_appendActivity` also say in which states these operations can be killed.
-/

namespace SolstoneTmux

open Foundations Foundations.Prog SegmentLog

/-! ## Lengths -/

theorem segmentLength_le {elapsed : ℕ} (h : elapsed < 2 ^ 64) (interval : ℕ) :
    segmentLength elapsed interval * nanosPerSecond ≤ u64Max := by
  have hdiv : asSecs elapsed ≤ 18446744073 := by
    rw [asSecs, nanosPerSecond]
    omega
  have hlen : segmentLength elapsed interval ≤ 18446744073 := by
    rw [segmentLength]
    omega
  rw [nanosPerSecond, u64Max]
  omega

/-- The length that a segment has at a time. -/
def SegmentState.lengthAt (self : SegmentState) (nowMonotonic : ℕ) : ℕ :=
  segmentLength (self.elapsed nowMonotonic) self.segmentInterval * nanosPerSecond

theorem lengthOf_recordLength {stem : Str} {m : SegmentMetadata}
    (hm : m.incompleteDir = incompleteName stem) (elapsed interval : ℕ) :
    LengthOf stem (recordLength m elapsed interval)
      (segmentLength elapsed interval * nanosPerSecond) where
  finalized := by simp only [recordLength, hm, segmentStem_incompleteName]
  elapsed := rfl

theorem SegmentLog.MetadataOf.recordLength {log : SegmentLog} {stem : Str} {m : SegmentMetadata}
    (hm : MetadataOf log stem m) (elapsed interval : ℕ) :
    MetadataOf log stem (recordLength m elapsed interval) where
  schema := hm.schema
  started := hm.started
  incomplete := hm.incomplete
  length := ⟨_, lengthOf_recordLength hm.incomplete elapsed interval⟩
  offset := hm.offset
  start := hm.start
  lastId := hm.lastId
  count := hm.count
  hasFrames := hm.hasFrames
  activity := hm.activity
  sessions := hm.sessions

/-! ## Records -/

theorem incompleteName_ne_metaName (stem stem' : Str) :
    incompleteName stem ≠ incompleteMetaName stem' := by
  intro h
  have := congrArg List.getLast? h
  simp [incompleteName, incompleteMetaName] at this

theorem incomplete_ne_meta (stem stem' : Str) :
    OsName.str (incompleteName stem) ≠ .str (incompleteMetaName stem') :=
  fun h => incompleteName_ne_metaName _ _ (OsName.str.inj h)

/-- The open segment and its stream directory record a log. -/
structure Records (decoder : Decoder) (stem : Str) (d : StreamDir) (seg : SegmentState)
    (log : SegmentLog) (opened : SegmentDir) : Prop where
  wellFormed : log.WellFormed decoder
  segment : segmentMembers d (.str (incompleteName stem)) = some opened
  members : MembersOf log stem opened
  metadata : MetadataOf log stem seg.metadata
  onDisk : d[OsName.str (incompleteMetaName stem)]? = some (.file (.metadata seg.metadata))
  incompleteDir : seg.incompleteDir = incompleteName stem
  metadataPath : seg.metadataPath = incompleteMetaName stem
  storageDir : seg.storage.segmentDir = .str (incompleteName stem)
  storageMeta : seg.storage.metadataPath = .str (incompleteMetaName stem)
  handles : ∀ f ∈ seg.storage.handles, opened[OsName.str f]?.isSome = true
  sound : seg.poisoned = false
  isOpen : seg.closed = none

/-! ## Creation -/

section Create

variable {A : Turn → Prop} {stem : Str} {startWall : OffsetDateTime} {startMonotonic : ℕ}
  {localOffset : UtcOffset} {tz : Option Str} {interval : ℕ} {d : StreamDir}

/-- The metadata of a created segment. -/
def openedMetadata (stem : Str) (startWall : OffsetDateTime) (localOffset : UtcOffset)
    (tz : Option Str) (interval : ℕ) : SegmentMetadata :=
  { SegmentState.initialMetadata stem startWall localOffset tz interval with lifecycle := .opened }

/-- The stream directory after the metadata was first written. -/
def createdMeta (stem : Str) (m : SegmentMetadata) (d : StreamDir) : StreamDir :=
  d.insert (.str (incompleteMetaName stem)) (.file (.metadata m))

/-- The stream directory after the segment's directory was made. -/
def createdDir (stem : Str) (d : StreamDir) : StreamDir :=
  d.insert (.str (incompleteName stem)) (.directory ∅)

theorem wp_ensurePrivateDirectory {Q : Ended SegmentError Unit → StreamDir → Prop} {name : OsName}
    (hnone : d[name]? = none) (hok : Q (.done ()) (d.insert name (.directory ∅)))
    (hfail : canFail A → ∀ e d, Q (.raised e) d) (hkill : canKill A → Q .killed d)
    (hkill' : canKill A → Q .killed (d.insert name (.directory ∅))) :
    wp A (SegmentState.ensurePrivateDirectory name) Q d := by
  rw [SegmentState.ensurePrivateDirectory, symlinkMetadata, wp_bind]
  refine wp_query ?_ (fun hf => hfail hf _ _) hkill
  rw [hnone, andThen_done, wp_bind, createDir]
  refine wp_call_atomic (by rw [hnone]) ?_ (fun hf => hfail hf _ _) hkill
  rw [andThen_done]
  exact wp_call_barrier hok (fun hf => hfail hf _ _) hkill'

/-- What creation does: the metadata says `creating`, the directory is made, the metadata says
`open`. -/
theorem wp_create {Q : Ended SegmentError SegmentState → StreamDir → Prop}
    (hdir : d[OsName.str (incompleteName stem)]? = none)
    (hmeta : d[OsName.str (incompleteMetaName stem)]? = none)
    (hok : ∀ creating opened d₁ d₂ d₃,
      creating = SegmentState.initialMetadata stem startWall localOffset tz interval →
      opened = openedMetadata stem startWall localOffset tz interval →
      d₁ = createdMeta stem creating d → d₂ = createdDir stem d₁ → d₃ = createdMeta stem opened d₂ →
      (canKill A → Q .killed d ∧ Q .killed d₁ ∧ Q .killed d₂ ∧ Q .killed d₃) ∧
        Q (.done (SegmentState.initial stem opened startMonotonic interval)) d₃)
    (hfail : canFail A → ∀ e d, Q (.raised e) d) :
    wp A (SegmentState.create stem startWall startMonotonic localOffset tz interval) Q d := by
  obtain ⟨hkill, hdone⟩ := hok _ _ _ _ _ rfl rfl rfl rfl rfl
  have hplain : PlainTarget d (.str (incompleteMetaName stem)) := by
    intro node hnode
    rw [hmeta] at hnode
    cases hnode
  have hplain' : PlainTarget (createdDir stem (createdMeta stem
      (SegmentState.initialMetadata stem startWall localOffset tz interval) d))
      (.str (incompleteMetaName stem)) := by
    intro node hnode
    rw [createdDir, Table.get_insert_ne (incomplete_ne_meta _ _), createdMeta,
      Table.get_insert_self] at hnode
    cases hnode
    rfl
  have hnodir : (createdMeta stem
      (SegmentState.initialMetadata stem startWall localOffset tz interval) d)[
        OsName.str (incompleteName stem)]? = none := by
    rw [createdMeta, Table.get_insert_ne (incomplete_ne_meta _ _).symm, hdir]
  rw [SegmentState.create, wp_bind]
  refine wp_call_barrier ?_ (fun hf => hfail hf _ _) fun hk => (hkill hk).1
  rw [andThen_done, wp_bind, entryVisible]
  have hfree : ∀ {name : OsName} {P : Prog StreamDir Turn SegmentError SegmentState}
      {R : Prog StreamDir Turn SegmentError SegmentState}, d[name]? = none → wp A P Q d →
      wp A (glance (fun d : StreamDir => d[name]?.isSome) false)
        (andThen A (fun seen => if seen then R else P) Q) d := by
    intro name P R hnone hP
    refine wp_glance ?_ (fun _ => ?_) fun hk => (hkill hk).1
    · simpa [hnone] using hP
    · simpa using hP
  refine hfree hdir ?_
  rw [wp_bind, entryVisible]
  refine hfree hmeta ?_
  rw [wp_bind, wp_rethrow, atomicWriteMetadata]
  refine wp_atomicWriteBytes (fun _ => ?_) (fun h e => ?_) (fun _ hf e => hfail hf _ _)
    (fun hk => (hkill hk).1) (fun _ hk => (hkill hk).2.1)
  swap
  · rcases h with hf | hbad
    · exact hfail hf _ _
    · exact absurd hplain hbad
  rw [mapRaised, andThen_done, wp_bind]
  refine wp_ensurePrivateDirectory hnodir ?_ (fun hf => hfail hf) (fun hk => (hkill hk).2.1)
    fun hk => (hkill hk).2.2.1
  rw [andThen_done, wp_bind, wp_rethrow]
  refine wp_call_barrier ?_ (fun hf => hfail hf _ _) fun hk => (hkill hk).2.2.1
  rw [mapRaised, andThen_done, wp_bind, wp_rethrow, atomicWriteMetadata]
  refine wp_atomicWriteBytes (fun _ => hdone) (fun h e => ?_) (fun _ hf e => hfail hf _ _)
    (fun hk => (hkill hk).2.2.1) (fun _ hk => (hkill hk).2.2.2)
  rcases h with hf | hbad
  · exact hfail hf _ _
  · exact absurd hplain' hbad

/-- A name that is in use stops the creation before it writes anything. -/
theorem wp_create_collision {Q : Ended SegmentError SegmentState → StreamDir → Prop}
    (hA : ¬ A .blind)
    (h : d[OsName.str (incompleteName stem)]?.isSome = true ∨
      d[OsName.str (incompleteMetaName stem)]?.isSome = true)
    (hraise : ∀ e, Q (.raised e) d) (hkill : Q .killed d) :
    wp A (SegmentState.create stem startWall startMonotonic localOffset tz interval) Q d := by
  rw [SegmentState.create, wp_bind]
  refine wp_call_barrier ?_ (fun _ => hraise _) fun _ => hkill
  rw [andThen_done, wp_bind, entryVisible]
  refine wp_glance ?_ (fun hb => absurd hb hA) fun _ => hkill
  rw [andThen_done]
  split
  · exact hraise _
  · rename_i hdir
    rw [wp_bind, entryVisible]
    refine wp_glance ?_ (fun hb => absurd hb hA) fun _ => hkill
    rw [andThen_done, if_pos (h.resolve_left hdir)]
    exact hraise _

theorem lengthOf_opened (stem : Str) (startWall : OffsetDateTime) (localOffset : UtcOffset)
    (tz : Option Str) (interval : ℕ) :
    LengthOf stem (openedMetadata stem startWall localOffset tz interval)
      (segmentLength 0 interval * nanosPerSecond) := by
  have h := lengthOf_recordLength
    (m := SegmentState.initialMetadata stem startWall localOffset tz interval) rfl 0 interval
  exact ⟨h.finalized, h.elapsed⟩

theorem metadataOf_opened (stem : Str) (startWall : OffsetDateTime) (localOffset : UtcOffset)
    (tz : Option Str) (interval : ℕ) :
    MetadataOf .empty stem (openedMetadata stem startWall localOffset tz interval) where
  schema := rfl
  started := by simp [openedMetadata]
  incomplete := rfl
  length := ⟨_, lengthOf_opened _ _ _ _ _⟩
  offset := localOffset.valid
  start := startWall.valid
  lastId := rfl
  count := rfl
  hasFrames := rfl
  activity := rfl
  sessions := fun _ => Table.get_empty _

theorem membersOf_empty (stem : Str) : MembersOf .empty stem ∅ where
  session := by simp
  activity := Table.get_empty _
  only := by
    intro name node h
    rw [Table.get_empty] at h
    cases h

/-- A created segment records the empty log. -/
theorem records_created (decoder : Decoder) {d' : StreamDir} :
    Records decoder stem
      (createdMeta stem (openedMetadata stem startWall localOffset tz interval)
        (createdDir stem d'))
      (SegmentState.initial stem (openedMetadata stem startWall localOffset tz interval)
        startMonotonic interval) .empty ∅ where
  wellFormed := wellFormed_empty
  segment := by
    rw [createdMeta, segmentMembers_insert_ne (incomplete_ne_meta _ _).symm, createdDir,
      segmentMembers_insert_self]
  members := membersOf_empty stem
  metadata := metadataOf_opened stem startWall localOffset tz interval
  onDisk := Table.get_insert_self _ _ _
  incompleteDir := rfl
  metadataPath := rfl
  storageDir := rfl
  storageMeta := rfl
  handles := by simp [SegmentState.initial]
  sound := rfl
  isOpen := rfl

end Create

/-! ## Appending a frame -/

section Append

variable {decoder : Decoder} {stem : Str} {d : StreamDir} {seg : SegmentState} {log : SegmentLog}
  {members : SegmentDir}

theorem previousOffset_of_log (hm : MetadataOf log stem seg.metadata) (session : Str) :
    SegmentState.previousOffset seg.metadata session = (log.bytesOf session).length := by
  rw [SegmentState.previousOffset, hm.sessions]
  cases hs : log.sessionMetadata session with
  | some sm =>
    obtain ⟨f, -, -, -, -, -, hoff⟩ := sessionMetadata_eq_some hs
    exact hoff
  | none =>
    have hnil : log.framesOf session = [] := by
      simpa [sessionMetadata] using hs
    simp [bytesOf, linesOf, hnil]

/-- A session's file before its next frame: its recorded bytes, or nothing. -/
theorem member_of_log (hlog : log.WellFormed decoder)
    (hmem : MembersOf log stem members) {session : Str} {n : DerivedName}
    (hn : deriveComponent session = .ok n) :
    members[OsName.str n.sessionFilename]? = some (.file (log.bytesOf session)) ∨
      (members[OsName.str n.sessionFilename]? = none ∧ log.bytesOf session = []) := by
  have hfile : sessionFile session = some n.sessionFilename := by rw [sessionFile, hn]
  by_cases hframes : log.framesOf session = []
  · refine .inr ⟨?_, by simp [bytesOf, linesOf, hframes]⟩
    cases hnode : members[OsName.str n.sessionFilename]? with
    | none => rfl
    | some node =>
      rcases hmem.only _ _ hnode with ⟨p, hp, hname⟩ | hname
      · have hsame := hlog.file hp
        rw [← OsName.str.inj hname] at hsame
        have hsession := sessionFile_injective hsame hfile
        have hin : p ∈ log.framesOf session := List.mem_filter.mpr ⟨hp, by simpa using hsession⟩
        rw [hframes] at hin
        cases hin
      · exact absurd (OsName.str.inj hname).symm (activityFilename_ne_sessionFilename _ n)
  · obtain ⟨p, hp⟩ := List.exists_mem_of_ne_nil _ hframes
    obtain ⟨hnum, hsession⟩ := List.mem_filter.mp hp
    have hs : p.1.session = session := by simpa using hsession
    have hname := hlog.file hnum
    rw [hs, hfile] at hname
    refine .inl ?_
    rw [Option.some.inj hname, hmem.session p hnum, hs]

/-- The storage is ready for the next frame of a session. -/
theorem Records.ready_capture (h : Records decoder stem d seg log members)
    {session : Str} {n : DerivedName}
    (hn : deriveComponent session = .ok n) :
    seg.storage.Ready d n.sessionFilename members (log.bytesOf session)
      (.metadata seg.metadata) where
  segment := by rw [h.storageDir, h.segment]
  member := by
    rcases member_of_log h.wellFormed h.members hn with hm | ⟨hm, hnil⟩
    · exact .inl hm
    · refine .inr ⟨hm, hnil, fun hin => ?_⟩
      have := h.handles _ hin
      rw [hm] at this
      cases this
  metadata := by rw [h.storageMeta, h.onDisk]
  distinct := by
    rw [h.storageDir, h.storageMeta]
    exact incomplete_ne_meta _ _

/-- The frame that `append_capture` appends. -/
def nextFrame (log : SegmentLog) (capture : CaptureResult) (n : DerivedName)
    (timestamp : F64Text) : Frame where
  session := capture.session
  filename := n.sessionFilename
  line := serializeFrame capture (log.frames.length + 1) timestamp

theorem frameOk_nextFrame {capture : CaptureResult} {n : DerivedName}
    (hn : deriveComponent capture.session = .ok n)
    (hid : log.frames.length + 1 ≤ u64Max) (timestamp : F64Text) :
    FrameOk decoder (nextFrame log capture n timestamp) (log.frames.length + 1) where
  isLine := ⟨_, rfl, newline_not_mem_utf8 (newline_not_mem_envelope _ _ _)⟩
  reads := by
    simp only [nextFrame, serializeFrame, List.dropLast_concat]
    refine decoder.frameId_of_envelope capture _ timestamp ?_
    rw [u64Max] at hid
    omega
  file := by rw [nextFrame, sessionFile, hn]

theorem lengthOf_proposedCapture (hm : MetadataOf log stem seg.metadata) {session filename : Str}
    {frameId length now : ℕ} :
    LengthOf stem (seg.proposedCapture session filename frameId length now) (seg.lengthAt now) :=
  have h := lengthOf_recordLength hm.incomplete (seg.elapsed now) seg.segmentInterval
  ⟨h.finalized, h.elapsed⟩

theorem metadataOf_proposedCapture (hm : MetadataOf log stem seg.metadata)
    (capture : CaptureResult) (n : DerivedName) (timestamp : F64Text) (now : ℕ) :
    MetadataOf (log.addFrame (nextFrame log capture n timestamp)) stem
      (seg.proposedCapture capture.session n.sessionFilename (seg.metadata.lastDurableFrameId + 1)
        (serializeFrame capture (seg.metadata.lastDurableFrameId + 1) timestamp).length now) := by
  have hr := hm.recordLength (seg.elapsed now) seg.segmentInterval
  have hlen : (log.addFrame (nextFrame log capture n timestamp)).frames.length =
      log.frames.length + 1 := by simp [addFrame]
  exact
    { schema := hr.schema
      started := hr.started
      incomplete := hr.incomplete
      length := ⟨_, lengthOf_proposedCapture hm⟩
      offset := hr.offset
      start := hr.start
      lastId := by rw [hlen, SegmentState.proposedCapture, hm.lastId]
      count := by rw [hlen, SegmentState.proposedCapture, ← hr.count]
      hasFrames := by simp [hlen, SegmentState.proposedCapture]
      activity := hr.activity
      sessions := by
        intro session
        simp only [SegmentState.proposedCapture, Table.get_insert]
        split
        · rename_i hs
          rw [← hs]
          have := sessionMetadata_addFrame_self log (nextFrame log capture n timestamp)
          rw [show (nextFrame log capture n timestamp).session = capture.session from rfl] at this
          rw [this, previousOffset_of_log hm, hm.lastId]
          rfl
        · rename_i hs
          rw [sessionMetadata_addFrame_ne hs]
          exact hr.sessions session }

theorem membersOf_addFrame (hlog : log.WellFormed decoder)
    (hmem : MembersOf log stem members) {f : Frame} (hfile : sessionFile f.session = some f.filename) :
    MembersOf (log.addFrame f) stem
      (members.insert (.str f.filename) (.file (log.bytesOf f.session ++ f.line))) where
  session := by
    intro p hp
    rw [numbered_addFrame, List.mem_append, List.mem_singleton] at hp
    rcases hp with hp | rfl
    · rw [Table.get_insert]
      by_cases hs : f.session = p.1.session
      · have hsame := hlog.file hp
        rw [← hs, hfile] at hsame
        rw [if_pos (by rw [Option.some.inj hsame]), ← hs, bytesOf_addFrame_self]
      · rw [if_neg, hmem.session p hp, bytesOf_addFrame_ne hs]
        intro hname
        exact hs (sessionFile_injective hfile (OsName.str.inj hname ▸ hlog.file hp))
    · rw [Table.get_insert_self, bytesOf_addFrame_self]
  activity := by
    obtain ⟨n, -, hn⟩ := sessionFile_eq_some hfile
    rw [Table.get_insert_ne, hmem.activity]
    · rfl
    · intro h
      exact activityFilename_ne_sessionFilename _ n (hn ▸ (OsName.str.inj h).symm)
  only := by
    intro name node hnode
    rw [Table.get_insert] at hnode
    rw [numbered_addFrame]
    split at hnode
    · rename_i hname
      exact .inl ⟨_, List.mem_append_right _ List.mem_cons_self, hname.symm⟩
    · rcases hmem.only name node hnode with ⟨p, hp, hname⟩ | hname
      · exact .inl ⟨p, List.mem_append_left _ hp, hname⟩
      · exact .inr hname

/-- An operation at a time recorded the segment's length, and changed neither its start nor its
interval. -/
structure Timed (stem : Str) (seg : SegmentState) (now : ℕ) (seg' : SegmentState) : Prop where
  start : seg'.startMonotonic = seg.startMonotonic
  interval : seg'.segmentInterval = seg.segmentInterval
  length : LengthOf stem seg'.metadata (seg.lengthAt now)

theorem Records.storage_opening (h : Records decoder stem d seg log members) (filename : Str)
    (node : Node Bytes ℕ) : ∀ f ∈ (seg.storage.opening filename).handles,
      (members.insert (.str filename) node)[OsName.str f]?.isSome = true := by
  intro f hf
  rw [Table.get_insert]
  split
  · rfl
  · rename_i hne
    rcases FileStorage.mem_opening_handles.mp hf with rfl | hf
    · exact absurd rfl hne
    · exact h.handles f hf

theorem Records.segment_appended (h : Records decoder stem d seg log members) (filename : Str)
    (b : Bytes) (m : SegmentMetadata) :
    segmentMembers (seg.storage.appended d members filename b m) (.str (incompleteName stem)) =
      some (members.insert (.str filename) (.file b)) := by
  rw [FileStorage.appended, FileStorage.withFile, h.storageDir, h.storageMeta,
    segmentMembers_insert_ne (incomplete_ne_meta _ _).symm, segmentMembers_insert_self]

theorem Records.onDisk_appended (h : Records decoder stem d seg log members) (filename : Str)
    (b : Bytes) (m : SegmentMetadata) :
    (seg.storage.appended d members filename b m)[OsName.str (incompleteMetaName stem)]? =
      some (.file (.metadata m)) := by
  rw [FileStorage.appended, h.storageMeta, Table.get_insert_self]

/-- **A frame is appended to the log, or nothing happens.** A kill leaves the directory untouched,
with a part of the frame's line in the session's file, or with the frame appended. -/
theorem wp_appendCapture {A : Turn → Prop} {ε : Type} {hash : Str → UInt64}
    {Q : Ended ε (SegmentState × Except SegmentError AppendOutcome) → StreamDir → Prop}
    (h : Records decoder stem d seg log members) {capture : CaptureResult} {timestamp : F64Text} {now : ℕ}
    (hunchanged : Q (.done (seg, .ok .unchanged)) d)
    (hrefused : ∀ e, Q (.done (seg, .error e)) d)
    (happended : ∀ n seg' d', deriveComponent capture.session = .ok n →
      log.frames.length + 1 ≤ u64Max → Timed stem seg now seg' →
      d' = seg.storage.appended d members n.sessionFilename
        (log.bytesOf capture.session ++ (nextFrame log capture n timestamp).line) seg'.metadata →
      Records decoder stem d' seg' (log.addFrame (nextFrame log capture n timestamp))
        (members.insert (.str n.sessionFilename)
          (.file (log.bytesOf capture.session ++ (nextFrame log capture n timestamp).line))) →
      Q (.done (seg', .ok (.appended (log.frames.length + 1)))) d' ∧
        (canKill A → Q .killed d'))
    (hpart : ∀ n k, deriveComponent capture.session = .ok n → log.frames.length + 1 ≤ u64Max →
      canKill A → Q .killed (seg.storage.withFile d members n.sessionFilename
        (log.bytesOf capture.session ++ (nextFrame log capture n timestamp).line.take k)))
    (hkill : canKill A → Q .killed d)
    (hfail : canFail A → ∀ seg e d, Q (.done (seg, .error e)) d)
    (hany : canFail A → ∀ d, Q .killed d) :
    wp A (seg.appendCapture hash capture timestamp now) Q d := by
  rw [SegmentState.appendCapture, if_neg (by simp [h.sound]), if_neg (by simp [h.isOpen])]
  by_cases hdigest : seg.digests[capture.session]? =
      some (SegmentState.captureDigest hash capture)
  · rw [if_pos hdigest]
    exact hunchanged
  · rw [if_neg hdigest]
    cases hn : deriveComponent capture.session with
    | error e => exact hrefused _
    | ok n =>
      simp only [h.metadata.lastId]
      by_cases hid : u64Max < log.frames.length + 1
      · rw [if_pos hid]
        exact hrefused _
      · have hle : log.frames.length + 1 ≤ u64Max := Nat.le_of_not_lt hid
        have hready := h.ready_capture hn
        have hproposed := metadataOf_proposedCapture h.metadata capture n timestamp now
        rw [h.metadata.lastId] at hproposed
        have hsame := fun (digests : Table Str UInt64) => happended n
          { seg with
            storage := seg.storage.opening n.sessionFilename
            metadata := seg.proposedCapture capture.session n.sessionFilename
              (log.frames.length + 1)
              (serializeFrame capture (log.frames.length + 1) timestamp).length now
            digests := digests } _ hn hle ⟨rfl, rfl, lengthOf_proposedCapture h.metadata⟩ rfl
          { wellFormed := h.wellFormed.addFrame (frameOk_nextFrame hn hle timestamp)
            segment := h.segment_appended _ _ _
            members := membersOf_addFrame h.wellFormed h.members
              (f := nextFrame log capture n timestamp) (by rw [nextFrame, sessionFile, hn])
            metadata := hproposed
            onDisk := h.onDisk_appended _ _ _
            incompleteDir := h.incompleteDir
            metadataPath := h.metadataPath
            storageDir := by rw [FileStorage.opening_segmentDir, h.storageDir]
            storageMeta := by rw [FileStorage.opening_metadataPath, h.storageMeta]
            handles := h.storage_opening _ _
            sound := h.sound
            isOpen := h.isOpen }
        rw [if_neg hid, wp_bind]
        refine FileStorage.wp_appendFrame hready (previousOffset_of_log h.metadata _).symm ?_ ?_ hany
          hkill (fun k hk => hpart n k hn hle hk) fun hk => (hsame ∅).2 hk
        · rw [andThen_done]
          exact (hsame _).1
        · intro hf storage e d'
          rw [andThen_done]
          exact hfail hf _ _ _

/-! ## Appending activity -/

theorem metadataOf_proposedActivity (hm : MetadataOf log stem seg.metadata) (bytes : Bytes)
    (now : ℕ) :
    MetadataOf (log.addActivity bytes) stem (seg.proposedActivity bytes.length now) := by
  have hbefore : MetadataOf (log.addActivity bytes) stem
      { seg.metadata with
        activityDurableOffset := seg.metadata.activityDurableOffset + bytes.length } :=
    { schema := hm.schema
      started := hm.started
      incomplete := hm.incomplete
      length := hm.length.imp fun _ h => ⟨h.finalized, h.elapsed⟩
      offset := hm.offset
      start := hm.start
      lastId := hm.lastId
      count := hm.count
      hasFrames := hm.hasFrames
      activity := by simp [addActivity, hm.activity]
      sessions := hm.sessions }
  exact hbefore.recordLength (seg.elapsed now) seg.segmentInterval

theorem lengthOf_proposedActivity (hm : MetadataOf log stem seg.metadata) {length now : ℕ} :
    LengthOf stem (seg.proposedActivity length now) (seg.lengthAt now) := by
  refine lengthOf_recordLength ?_ (seg.elapsed now) seg.segmentInterval
  exact hm.incomplete

theorem membersOf_addActivity (hlog : log.WellFormed decoder)
    (hmem : MembersOf log stem members) {bytes : Bytes} (hne : bytes ≠ []) :
    MembersOf (log.addActivity bytes) stem
      (members.insert (.str (activityFilename stem)) (.file (log.activity ++ bytes))) where
  session := by
    intro p hp
    have hp : p ∈ log.numbered := hp
    obtain ⟨n, -, hn⟩ := sessionFile_eq_some (hlog.file hp)
    rw [Table.get_insert_ne]
    · exact hmem.session p hp
    · intro h
      exact activityFilename_ne_sessionFilename _ n (hn ▸ OsName.str.inj h)
  activity := by simp [addActivity, hne]
  only := by
    intro name node hnode
    rw [Table.get_insert] at hnode
    split at hnode
    · rename_i hname
      exact .inr hname.symm
    · exact hmem.only name node hnode

theorem Records.ready_activity (h : Records decoder stem d seg log members) :
    seg.storage.Ready d (activityFilename stem) members log.activity (.metadata seg.metadata) where
  segment := by rw [h.storageDir, h.segment]
  member := by
    have hm := h.members.activity
    split at hm
    · rename_i hnil
      refine .inr ⟨hm, hnil, fun hin => ?_⟩
      have := h.handles _ hin
      rw [hm] at this
      cases this
    · exact .inl hm
  metadata := by rw [h.storageMeta, h.onDisk]
  distinct := by
    rw [h.storageDir, h.storageMeta]
    exact incomplete_ne_meta _ _

/-- **Activity is appended to the log, or nothing happens.** -/
theorem wp_appendActivity {A : Turn → Prop} {ε : Type}
    {Q : Ended ε (SegmentState × Except SegmentError Unit) → StreamDir → Prop}
    (h : Records decoder stem d seg log members) {bytes : Bytes} (hlines : Complete newline bytes) {now : ℕ}
    (hempty : bytes = [] → Q (.done (seg, .ok ())) d)
    (hrefused : ∀ e, Q (.done (seg, .error e)) d)
    (happended : ∀ seg' d', bytes ≠ [] → Timed stem seg now seg' →
      d' = seg.storage.appended d members (activityFilename stem) (log.activity ++ bytes)
        seg'.metadata →
      Records decoder stem d' seg' (log.addActivity bytes)
        (members.insert (.str (activityFilename stem)) (.file (log.activity ++ bytes))) →
      Q (.done (seg', .ok ())) d' ∧ (canKill A → Q .killed d'))
    (hpart : ∀ k, canKill A → Q .killed (seg.storage.withFile d members (activityFilename stem)
      (log.activity ++ bytes.take k)))
    (hkill : canKill A → Q .killed d)
    (hfail : canFail A → ∀ seg e d, Q (.done (seg, .error e)) d)
    (hany : canFail A → ∀ d, Q .killed d) :
    wp A (seg.appendActivity bytes now) Q d := by
  rw [SegmentState.appendActivity]
  by_cases hnil : bytes = []
  · rw [if_pos (by simp [hnil])]
    exact hempty hnil
  · rw [if_neg (by simpa using hnil), if_neg (by simp [h.sound]), if_neg (by simp [h.isOpen])]
    dsimp only
    split
    · exact hrefused _
    · have happ := happended
        { seg with
          storage := seg.storage.opening (activityFilename stem)
          metadata := seg.proposedActivity bytes.length now } _ hnil ⟨rfl, rfl, lengthOf_proposedActivity h.metadata⟩ rfl
        { wellFormed := h.wellFormed.addActivity hlines
          segment := h.segment_appended _ _ _
          members := membersOf_addActivity h.wellFormed h.members hnil
          metadata := metadataOf_proposedActivity h.metadata bytes now
          onDisk := h.onDisk_appended _ _ _
          incompleteDir := h.incompleteDir
          metadataPath := h.metadataPath
          storageDir := by rw [FileStorage.opening_segmentDir, h.storageDir]
          storageMeta := by rw [FileStorage.opening_metadataPath, h.storageMeta]
          handles := h.storage_opening _ _
          sound := h.sound
          isOpen := h.isOpen }
      rw [h.metadata.incomplete, segmentStem_incompleteName, wp_bind]
      refine FileStorage.wp_appendFrame h.ready_activity h.metadata.activity.symm ?_ ?_ hany hkill
        hpart happ.2
      · rw [andThen_done]
        exact happ.1
      · intro hf storage e d'
        rw [andThen_done]
        exact hfail hf _ _ _

end Append

end SolstoneTmux
