import SolstoneTmux.Recovery.Validate

/-!
# The log of a segment

What a segment is for, apart from files and offsets: the frames appended to it, in order, and the
activity lines. The `i`-th frame has the frame id `i`. A session's file is the concatenation of its
frames' lines (`bytesOf`), and its ids are the positions of its frames (`idsOf`).

* `perm_idsOf`: over all sessions, the ids are one to the number of frames, each once.
* `MetadataOf` and `MembersOf` say that metadata and a segment directory record a log; the writer
  keeps both, and recovery reads them back.
-/

namespace SolstoneTmux

open Foundations

/-- One appended frame. -/
structure Frame where
  session : Str
  filename : Str
  line : Bytes
  deriving DecidableEq

/-- The frames and the activity of a segment, in the order in which they were appended. -/
structure SegmentLog where
  frames : List Frame
  activity : Bytes
  deriving DecidableEq

/-- The file of a session, for a session whose name is accepted. -/
def sessionFile (session : Str) : Option Str :=
  match deriveComponent session with
  | .ok n => some n.sessionFilename
  | .error _ => none

theorem sessionFile_eq_some {session filename : Str} (h : sessionFile session = some filename) :
    ∃ n, deriveComponent session = .ok n ∧ n.sessionFilename = filename := by
  unfold sessionFile at h
  split at h
  · rename_i n hn
    exact ⟨n, hn, Option.some.inj h⟩
  · cases h

theorem sessionFile_injective {s t filename : Str} (hs : sessionFile s = some filename)
    (ht : sessionFile t = some filename) : s = t := by
  obtain ⟨m, hm, rfl⟩ := sessionFile_eq_some hs
  obtain ⟨n, hn, hmn⟩ := sessionFile_eq_some ht
  exact (deriveComponent_injective hn hm (DerivedName.sessionFilename_injective hmn)).symm

namespace SegmentLog

/-- The log of a segment that nothing was appended to. -/
def empty : SegmentLog := ⟨[], []⟩

/-- The log with one more frame. -/
def addFrame (log : SegmentLog) (f : Frame) : SegmentLog :=
  { log with frames := log.frames ++ [f] }

/-- The log with more activity. -/
def addActivity (log : SegmentLog) (bytes : Bytes) : SegmentLog :=
  { log with activity := log.activity ++ bytes }

/-- The frames with their ids. -/
def numbered (log : SegmentLog) : List (Frame × ℕ) := log.frames.zipIdx 1

/-- The frames of one session with their ids. -/
def framesOf (log : SegmentLog) (session : Str) : List (Frame × ℕ) :=
  log.numbered.filter fun p => p.1.session = session

/-- The frame ids of one session. -/
def idsOf (log : SegmentLog) (session : Str) : List ℕ := (log.framesOf session).map Prod.snd

/-- The lines of one session. -/
def linesOf (log : SegmentLog) (session : Str) : List Bytes :=
  (log.framesOf session).map fun p => p.1.line

/-- The content of one session's file. -/
def bytesOf (log : SegmentLog) (session : Str) : Bytes := (log.linesOf session).flatten

/-- A frame is well formed under an id: its line is one line, from which the id is read back, and
its file is the one derived from its session. -/
structure FrameOk (decoder : Decoder) (f : Frame) (frameId : ℕ) : Prop where
  isLine : IsLine newline f.line
  reads : frameIdOf decoder f.line.dropLast = some frameId
  file : sessionFile f.session = some f.filename

/-- Every frame of the log is well formed, and the activity consists of whole lines. -/
structure WellFormed (decoder : Decoder) (log : SegmentLog) : Prop where
  frames : ∀ p ∈ log.numbered, FrameOk decoder p.1 p.2
  activity : Complete newline log.activity

/-! ## Numbering -/

@[simp] theorem numbered_empty : empty.numbered = [] := rfl

theorem numbered_addFrame (log : SegmentLog) (f : Frame) :
    (log.addFrame f).numbered = log.numbered ++ [(f, log.frames.length + 1)] := by
  simp [numbered, addFrame, List.zipIdx_append, Nat.add_comm]

@[simp] theorem numbered_addActivity (log : SegmentLog) (bytes : Bytes) :
    (log.addActivity bytes).numbered = log.numbered := rfl

theorem map_snd_numbered (log : SegmentLog) :
    log.numbered.map Prod.snd = List.range' 1 log.frames.length := by
  simp [numbered, List.zipIdx_map_snd]

theorem mem_idsOf {log : SegmentLog} {session : Str} {i : ℕ} :
    i ∈ log.idsOf session ↔ ∃ f, (f, i) ∈ log.numbered ∧ f.session = session := by
  simp [idsOf, framesOf]

theorem numbered_unique {log : SegmentLog} {f g : Frame} {i : ℕ} (hf : (f, i) ∈ log.numbered)
    (hg : (g, i) ∈ log.numbered) : f = g := by
  have hf' := (List.mk_mem_zipIdx_iff_le_and_getElem?_sub.mp hf).2
  have hg' := (List.mk_mem_zipIdx_iff_le_and_getElem?_sub.mp hg).2
  rw [hf'] at hg'
  exact Option.some.inj hg'

theorem idsOf_sublist (log : SegmentLog) (session : Str) :
    (log.idsOf session).Sublist (List.range' 1 log.frames.length) := by
  rw [← map_snd_numbered]
  exact List.filter_sublist.map Prod.snd

/-- The ids in a session's file increase. -/
theorem pairwise_idsOf (log : SegmentLog) (session : Str) :
    (log.idsOf session).Pairwise (· < ·) :=
  List.Pairwise.sublist (log.idsOf_sublist session) List.pairwise_lt_range'

theorem le_of_mem_idsOf {log : SegmentLog} {session : Str} {i : ℕ} (h : i ∈ log.idsOf session) :
    1 ≤ i ∧ i ≤ log.frames.length := by
  have := (log.idsOf_sublist session).subset h
  rw [List.mem_range'_1] at this
  omega

theorem framesOf_addFrame (log : SegmentLog) (f : Frame) (session : Str) :
    (log.addFrame f).framesOf session = log.framesOf session ++
      if f.session = session then [(f, log.frames.length + 1)] else [] := by
  rw [framesOf, numbered_addFrame, List.filter_append]
  by_cases h : f.session = session <;> simp [framesOf, h]

theorem bytesOf_addFrame_self (log : SegmentLog) (f : Frame) :
    (log.addFrame f).bytesOf f.session = log.bytesOf f.session ++ f.line := by
  simp [bytesOf, linesOf, framesOf_addFrame]

theorem bytesOf_addFrame_ne {log : SegmentLog} {f : Frame} {session : Str}
    (h : f.session ≠ session) : (log.addFrame f).bytesOf session = log.bytesOf session := by
  simp [bytesOf, linesOf, framesOf_addFrame, h]

/-- **Over all sessions the frame ids are one to the number of frames, each once.** -/
theorem perm_idsOf {log : SegmentLog} {sessions : List Str} (hnodup : sessions.Nodup)
    (hall : ∀ p ∈ log.numbered, p.1.session ∈ sessions) :
    (sessions.flatMap log.idsOf).Perm (List.range' 1 log.frames.length) := by
  refine (List.perm_ext_iff_of_nodup ?_ List.nodup_range').mpr fun i => ?_
  · rw [List.nodup_flatMap]
    refine ⟨fun s _ => (log.pairwise_idsOf s).imp (fun h => Nat.ne_of_lt h), ?_⟩
    refine hnodup.imp fun {s t} hst i hs ht => ?_
    obtain ⟨f, hf, rfl⟩ := mem_idsOf.mp hs
    obtain ⟨g, hg, rfl⟩ := mem_idsOf.mp ht
    exact hst (by rw [numbered_unique hf hg])
  · rw [List.mem_flatMap]
    constructor
    · rintro ⟨s, -, hi⟩
      exact (log.idsOf_sublist s).subset hi
    · intro hi
      rw [← map_snd_numbered, List.mem_map] at hi
      obtain ⟨⟨f, j⟩, hf, rfl⟩ := hi
      exact ⟨f.session, hall _ hf, mem_idsOf.mpr ⟨f, hf, rfl⟩⟩

/-! ## Well-formed logs -/

section WellFormed

variable {decoder : Decoder} {log : SegmentLog}

theorem wellFormed_empty : empty.WellFormed decoder :=
  ⟨by simp, complete_nil⟩

theorem WellFormed.addFrame (h : log.WellFormed decoder) {f : Frame}
    (hf : FrameOk decoder f (log.frames.length + 1)) : (log.addFrame f).WellFormed decoder := by
  refine ⟨fun p hp => ?_, h.activity⟩
  rw [numbered_addFrame, List.mem_append, List.mem_singleton] at hp
  rcases hp with hp | rfl
  · exact h.frames p hp
  · exact hf

theorem WellFormed.addActivity (h : log.WellFormed decoder) {bytes : Bytes}
    (hb : Complete newline bytes) : (log.addActivity bytes).WellFormed decoder :=
  ⟨h.frames, h.activity.append hb⟩

theorem WellFormed.isLine (h : log.WellFormed decoder) {session : Str} :
    ∀ l ∈ log.linesOf session, IsLine newline l := by
  intro l hl
  obtain ⟨p, hp, rfl⟩ := List.mem_map.mp hl
  exact (h.frames p (List.mem_filter.mp hp).1).isLine

/-- All frames of a session are in one file. -/
theorem WellFormed.file (h : log.WellFormed decoder) {p : Frame × ℕ} (hp : p ∈ log.numbered) :
    sessionFile p.1.session = some p.1.filename :=
  (h.frames p hp).file

end WellFormed

/-! ## What metadata and files record -/

/-- The metadata of one session, when the log has frames of it. -/
def sessionMetadata (log : SegmentLog) (session : Str) : Option SessionMetadata :=
  (log.framesOf session).getLast?.map fun p =>
    { session := session
      filename := p.1.filename
      lastFrameId := p.2
      durableOffset := (log.bytesOf session).length }

theorem sessionMetadata_addFrame_self (log : SegmentLog) (f : Frame) :
    (log.addFrame f).sessionMetadata f.session = some
      { session := f.session
        filename := f.filename
        lastFrameId := log.frames.length + 1
        durableOffset := (log.bytesOf f.session).length + f.line.length } := by
  simp [sessionMetadata, framesOf_addFrame, bytesOf_addFrame_self]

theorem sessionMetadata_addFrame_ne {log : SegmentLog} {f : Frame} {session : Str}
    (h : f.session ≠ session) :
    (log.addFrame f).sessionMetadata session = log.sessionMetadata session := by
  simp [sessionMetadata, framesOf_addFrame, bytesOf_addFrame_ne h, h]

theorem sessionMetadata_eq_some {log : SegmentLog} {session : Str} {sm : SessionMetadata}
    (h : log.sessionMetadata session = some sm) :
    ∃ f, (f, sm.lastFrameId) ∈ log.numbered ∧ f.session = session ∧ sm.session = session ∧
      sm.filename = f.filename ∧ (log.idsOf session).getLast? = some sm.lastFrameId ∧
      sm.durableOffset = (log.bytesOf session).length := by
  obtain ⟨p, hp, rfl⟩ := Option.map_eq_some_iff.mp h
  have hmem := List.mem_filter.mp (List.mem_of_getLast? hp)
  refine ⟨p.1, hmem.1, by simpa using hmem.2, rfl, rfl, ?_, rfl⟩
  simp [idsOf, hp]

theorem sessionMetadata_isSome {log : SegmentLog} {f : Frame} {i : ℕ}
    (h : (f, i) ∈ log.numbered) : ∃ sm, log.sessionMetadata f.session = some sm := by
  have hmem : (f, i) ∈ log.framesOf f.session := List.mem_filter.mpr ⟨h, by simp⟩
  cases hlast : (log.framesOf f.session).getLast? with
  | none =>
    rw [List.getLast?_eq_none_iff] at hlast
    rw [hlast] at hmem
    cases hmem
  | some p => exact ⟨_, by rw [sessionMetadata, hlast]; rfl⟩

/-- The metadata records the length of its segment: the name it will get carries the length in
seconds, and the field of nanoseconds holds as much of the length as fits. -/
structure LengthOf (stem : Str) (m : SegmentMetadata) (length : ℕ) : Prop where
  finalized : m.finalizedDir = finalizedName stem length
  elapsed : m.elapsedNanos = durationNanos length

/-- A length that fits names the segment by what is recorded. -/
theorem LengthOf.recorded {stem : Str} {m : SegmentMetadata} {length : ℕ}
    (h : LengthOf stem m length) (hle : length ≤ u64Max) :
    m.finalizedDir = finalizedName stem m.elapsedNanos := by
  rw [h.finalized, h.elapsed, durationNanos, Nat.min_eq_left hle]

/-- The metadata of an open or closing segment records a log. -/
structure MetadataOf (log : SegmentLog) (stem : Str) (m : SegmentMetadata) : Prop where
  schema : m.schemaVersion = SegmentMetadata.SCHEMA_VERSION
  started : m.lifecycle ≠ .creating
  incomplete : m.incompleteDir = incompleteName stem
  length : ∃ length, LengthOf stem m length
  offset : validOffsetSeconds m.localOffsetSeconds = true
  start : validUnixNanos m.startWallUnixNanos = true
  lastId : m.lastDurableFrameId = log.frames.length
  count : m.durableFrameCount = log.frames.length
  hasFrames : m.hasDurableFrames = decide (0 < log.frames.length)
  activity : m.activityDurableOffset = log.activity.length
  sessions : ∀ session : Str, m.sessions[session]? = log.sessionMetadata session

/-- A segment directory holds a log: each session's file, the activity file, and nothing else. -/
structure MembersOf (log : SegmentLog) (stem : Str) (members : SegmentDir) : Prop where
  session : ∀ p ∈ log.numbered,
    members[OsName.str p.1.filename]? = some (.file (log.bytesOf p.1.session))
  activity : members[OsName.str (activityFilename stem)]? =
    if log.activity = [] then none else some (.file log.activity)
  only : ∀ (name : OsName) (node : Node Bytes ℕ), members[name]? = some node →
    (∃ p ∈ log.numbered, name = .str p.1.filename) ∨ name = .str (activityFilename stem)

end SegmentLog

end SolstoneTmux
