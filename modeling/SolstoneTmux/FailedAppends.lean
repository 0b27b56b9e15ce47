import SolstoneTmux.Agreement
import SolstoneTmux.Storage.Disturbed
import Mathlib.Logic.Function.Basic

/-!
# Appends that fail

`recoverable_unchanged_iff` says when an append that fails and is rolled back leaves no trace: when
its file was there before, with the length that the metadata records. A file that the append itself
has made is cut to nothing, but not removed.

`FilesHeld` says that the files of an open segment hold what its metadata records, but for empty
files that failed appends have left. `FilesHeld.wp_appendCapture` and `FilesHeld.wp_appendActivity`
say what an append makes of that, whatever fails in it. `Tried` is every state that the writer
reaches when appends may fail; each of them is `Recording`, or poisoned (`Tried.recording`).
-/

namespace SolstoneTmux

open Foundations Foundations.Prog SegmentState

/-! ## Rollbacks that leave no trace -/

/-- The file that a frame of a capture is appended to, and the offset where it should end; none
where nothing is appended. -/
def captureTarget (hash : Str → UInt64) (seg : SegmentState) (capture : CaptureResult) :
    Option (Str × ℕ) :=
  if seg.poisoned || seg.closed.isSome then none
  else if seg.digests[capture.session]? = some (captureDigest hash capture) then none
  else if u64Max < seg.metadata.lastDurableFrameId + 1 then none
  else
    match deriveComponent capture.session with
    | .error _ => none
    | .ok n => some (n.sessionFilename, previousOffset seg.metadata capture.session)

/-- The file that activity is appended to, and the offset where it should end; none where nothing is
appended. -/
def activityTarget (seg : SegmentState) (bytes : Bytes) : Option (Str × ℕ) :=
  if bytes.isEmpty || seg.poisoned || seg.closed.isSome then none
  else if u64Max < seg.metadata.activityDurableOffset + bytes.length then none
  else
    some (activityFilename (segmentStem seg.metadata.incompleteDir),
      seg.metadata.activityDurableOffset)

section LeavesNoTrace

variable {α : Type} {seg : SegmentState} {d : StreamDir} {target : Option (Str × ℕ)}
  {p : Prog StreamDir Turn Empty (SegmentState × Except SegmentError α)}

/-- Every append that is rolled back leaves the directory, and what the segment knows of its files,
as they were. -/
def LeavesNoTrace (seg : SegmentState) (d : StreamDir)
    (p : Prog StreamDir Turn Empty (SegmentState × Except SegmentError α)) : Prop :=
  ∀ (ts : List Turn) seg' e d', run ts p d = (.done (seg', .error (.storage (.recoverable e))), d') →
    d' = d ∧ seg'.metadata = seg.metadata ∧ seg'.digests = seg.digests

/-- The file is there and ends at the offset, unless an append does not get to it. -/
def EndsAt (storage : FileStorage) (d : StreamDir) (filename : Str) (offset : ℕ) : Prop :=
  ∀ members b previous, storage.Ready d filename members b previous →
    members[OsName.str filename]? = some (.file b) ∧ b.length = offset

/-- The answer of an append to the segment, from that of its storage. -/
def answered (seg : SegmentState) (accepted : FileStorage → SegmentMetadata → SegmentState × α) :
    FileStorage × Except StorageError SegmentMetadata → SegmentState × Except SegmentError α
  | (storage, .error e) =>
    ({ seg with storage := storage, poisoned := e.isPoisoned }, .error (.storage e))
  | (storage, .ok m) => ((accepted storage m).1, .ok (accepted storage m).2)

/-- A program that appends to a file of the segment and answers, or answers at once. -/
structure AppendsTo (seg : SegmentState) (target : Option (Str × ℕ))
    (p : Prog StreamDir Turn Empty (SegmentState × Except SegmentError α)) : Prop where
  nothing : target = none → ∃ answer, (∀ e, answer ≠ .error (.storage e)) ∧ p = done (seg, answer)
  appends : ∀ filename offset, target = some (filename, offset) → ∃ frame accepted,
    frame.filename = filename ∧ frame.previousOffset = offset ∧
      p = (seg.storage.appendFrame frame).bind fun r => done (answered seg accepted r)

theorem AppendsTo.unchanged_iff (h : AppendsTo seg target p) (linked : seg.storage.Linked d) :
    LeavesNoTrace seg d p ↔
      ∀ filename offset, target = some (filename, offset) → EndsAt seg.storage d filename offset := by
  rcases htarget : target with - | ⟨filename, offset⟩
  · obtain ⟨answer, hanswer, rfl⟩ := h.nothing htarget
    refine ⟨fun _ _ _ heq => (by cases heq), fun _ ts seg' e d' hrun => ?_⟩
    cases hrun
    exact absurd rfl (hanswer _)
  obtain ⟨frame, accepted, rfl, rfl, rfl⟩ := h.appends filename offset htarget
  constructor
  · intro hunchanged filename offset heq members b previous ready
    cases heq
    refine (FileStorage.recoverable_restores_iff linked).mp (fun ts storage' e d' hrun => ?_)
      members b previous ready
    refine (hunchanged ts { seg with storage := storage', poisoned := false } e d' ?_).1
    rw [run_bind_done, hrun]
    rfl
  · intro hends ts seg' e d' hrun
    rw [run_bind_done] at hrun
    rcases hended : run ts (seg.storage.appendFrame frame : Prog _ _ Empty _) d with ⟨ended, d''⟩
    rw [hended] at hrun
    rcases ended with ⟨storage', answer⟩ | e' | -
    · rcases answer with e' | m
      · cases hrun
        have hsame := (FileStorage.recoverable_restores_iff linked).mpr (hends _ _ rfl)
        exact ⟨hsame ts storage' e d'' hended, rfl, rfl⟩
      · cases hrun
    · cases hrun
    · cases hrun

theorem AppendsTo.refused (htarget : target = none) {answer : Except SegmentError α}
    (hanswer : ∀ e, answer ≠ .error (.storage e)) : AppendsTo seg target (done (seg, answer)) where
  nothing := fun _ => ⟨answer, hanswer, rfl⟩
  appends := fun _ _ h => by rw [htarget] at h; cases h

theorem AppendsTo.appended {frame : AppendFrame}
    {next : FileStorage × Except StorageError SegmentMetadata →
      Prog StreamDir Turn Empty (SegmentState × Except SegmentError α)}
    (htarget : target = some (frame.filename, frame.previousOffset))
    (herr : ∀ storage e, next (storage, .error e) =
      done ({ seg with storage := storage, poisoned := e.isPoisoned }, .error (.storage e)))
    (hok : ∀ storage m, ∃ r : SegmentState × α, next (storage, .ok m) = done (r.1, .ok r.2)) :
    AppendsTo seg target ((seg.storage.appendFrame frame).bind next) where
  nothing := fun h => by rw [htarget] at h; cases h
  appends := by
    intro filename offset h
    rw [htarget] at h
    cases h
    choose accepted haccepted using hok
    have hnext : next = fun r => done (answered seg accepted r) := by
      funext ⟨storage, r⟩
      cases r with
      | error e => exact herr storage e
      | ok m => exact haccepted storage m
    exact ⟨frame, accepted, rfl, rfl, by rw [hnext]⟩

/-- An append of a capture. -/
theorem appendsTo_capture (hash : Str → UInt64) (seg : SegmentState) (capture : CaptureResult)
    (timestamp : F64Text) (now : ℕ) : AppendsTo seg (captureTarget hash seg capture)
      (seg.appendCapture hash capture timestamp now) := by
  unfold SegmentState.appendCapture
  dsimp only
  split
  · rename_i hpoisoned
    exact .refused (by simp [captureTarget, hpoisoned]) nofun
  rename_i hsound
  split
  · rename_i hclosed
    exact .refused (by simp [captureTarget, hclosed]) nofun
  rename_i hopen
  split
  · rename_i hknown
    exact .refused (by simp [captureTarget, hknown]) nofun
  rename_i hnew
  split
  · rename_i hname
    exact .refused (by simp [captureTarget, hname]) nofun
  rename_i n hname
  split
  · rename_i hfull
    exact .refused (by simp [captureTarget, hfull]) nofun
  rename_i hroom
  refine .appended (by simp [captureTarget, hsound, hopen, hnew, hname, hroom]) (fun _ _ => rfl)
    fun _ _ => ⟨(_, _), rfl⟩

/-- An append of activity. -/
theorem appendsTo_activity (seg : SegmentState) (bytes : Bytes) (now : ℕ) :
    AppendsTo seg (activityTarget seg bytes) (seg.appendActivity bytes now) := by
  unfold SegmentState.appendActivity
  dsimp only
  split
  · rename_i hempty
    exact .refused (by simp [activityTarget, hempty]) nofun
  rename_i hbytes
  split
  · rename_i hpoisoned
    exact .refused (by simp [activityTarget, hpoisoned]) nofun
  rename_i hsound
  split
  · rename_i hclosed
    exact .refused (by simp [activityTarget, hclosed]) nofun
  rename_i hopen
  split
  · rename_i hfull
    exact .refused (by simp [activityTarget, hfull]) nofun
  rename_i hroom
  refine .appended (by simp [activityTarget, hbytes, hsound, hopen, hroom]) (fun _ _ => rfl)
    fun _ _ => ⟨(_, _), rfl⟩

/-- **When a failed append leaves no trace.** Every append that is rolled back changes nothing if
and only if its file is there already and ends where the metadata says, unless no append gets to a
file. -/
theorem recoverable_unchanged_iff (linked : seg.storage.Linked d) (hash : Str → UInt64)
    (capture : CaptureResult) (timestamp : F64Text) (bytes : Bytes) (now : ℕ) :
    (LeavesNoTrace seg d (seg.appendCapture hash capture timestamp now) ↔
        ∀ filename offset, captureTarget hash seg capture = some (filename, offset) →
          EndsAt seg.storage d filename offset) ∧
      (LeavesNoTrace seg d (seg.appendActivity bytes now) ↔
        ∀ filename offset, activityTarget seg bytes = some (filename, offset) →
          EndsAt seg.storage d filename offset) :=
  ⟨(appendsTo_capture hash seg capture timestamp now).unchanged_iff linked,
    (appendsTo_activity seg bytes now).unchanged_iff linked⟩

end LeavesNoTrace

/-! ### A new file that is left behind

A segment has a frame of the session `main`, and the file of that session is open. -/

theorem captureTarget_eq_some {hash : Str → UInt64} {seg : SegmentState} {capture : CaptureResult}
    {filename : Str} {offset : ℕ} (h : captureTarget hash seg capture = some (filename, offset)) :
    ∃ n, deriveComponent capture.session = .ok n ∧ filename = n.sessionFilename ∧
      offset = previousOffset seg.metadata capture.session := by
  unfold captureTarget at h
  split_ifs at h
  split at h
  · cases h
  · rename_i n hn
    cases h
    exact ⟨n, hn, rfl, rfl⟩

/-- The segment with that frame, before and after an append of another session that fails at its
flush. -/
theorem written_oneFrame : ∃ d seg d' seg' e before after,
    Written (fun _ => 0) (· < 2 ^ 64) "120000".toList d seg ∧ seg.storage.Linked d ∧
      EndsAt seg.storage d "tmux_main_screen.jsonl".toList
        (previousOffset seg.metadata "main".toList) ∧
      run [.ok, .ok, .ok, .ok, .ok, .ok, .ok, .fail 0]
        (seg.appendCapture (fun _ => 0) (blankCapture "work".toList) ⟨"5.0".toList, by decide⟩
          6000000000 : Prog _ _ Empty _) d =
        (.done (seg', .error (.storage (.recoverable e))), d') ∧
      segmentMembers d (.str "120000.incomplete".toList) = some before ∧
      segmentMembers d' (.str "120000.incomplete".toList) = some after ∧
      (validateFiles .ofEnvelopes .byName before seg.metadata).kind = .exact ∧
      (validateFiles .ofEnvelopes .byName after seg'.metadata).kind = .contradictory := by
  have hcreate : Written (fun _ => 0) (· < 2 ^ 64) "120000".toList _ _ := .create (.inl (by simp))
    (rfl : run [] (SegmentState.create "120000".toList ⟨0, rfl⟩ 0 .utc none 300000000000) ∅ =
      (.done _, _))
  have hcapture := hcreate.capture (by decide)
    (rfl : run [] (SegmentState.appendCapture _ _ (blankCapture "main".toList)
      ⟨"0.0".toList, F64Text.valid_zero⟩ 1000000000) _ = (.done (_, .ok _), _))
  refine ⟨_, _, _, _, _, _, _, hcapture, ?_, ?_, rfl, rfl, rfl, ?_, ?_⟩
  · intro filename h
    rw [List.mem_singleton.mp (show filename ∈ ["tmux_main_screen.jsonl".toList] from h)]
    exact ⟨_, rfl⟩
  · intro members b previous ready
    refine ⟨?_, ?_⟩
    · rcases ready.member with hm | ⟨-, -, hclosed⟩
      · exact hm
      · exact absurd (List.mem_singleton_self "tmux_main_screen.jsonl".toList) hclosed
    · rw [← ready.fileAt]
      decide +kernel
  · decide +kernel
  · decide +kernel

/-- The file of `main` is there, so that an append to it leaves no trace when it fails. -/
theorem recoverable_unchanged_main : ∃ d seg,
    Written (fun _ => 0) (· < 2 ^ 64) "120000".toList d seg ∧ seg.storage.Linked d ∧
      LeavesNoTrace seg d (seg.appendCapture (fun _ => 1) (blankCapture "main".toList)
        ⟨"5.0".toList, by decide⟩ 6000000000) := by
  obtain ⟨d, seg, _, _, _, _, _, hwritten, hlinked, hends, -⟩ := written_oneFrame
  refine ⟨d, seg, hwritten, hlinked, ?_⟩
  refine (recoverable_unchanged_iff hlinked _ _ _ [] _).1.mpr fun filename offset htarget => ?_
  obtain ⟨n, hn, rfl, rfl⟩ := captureTarget_eq_some htarget
  obtain rfl : _ = n := Except.ok.inj hn
  exact hends

/-- An append of another session fails at its flush. It is rolled back, but its new file stays, and
recovery no longer accepts the segment. -/
theorem new_file_left_behind : ∃ d seg d' seg' e before after,
    Written (fun _ => 0) (· < 2 ^ 64) "120000".toList d seg ∧ seg.storage.Linked d ∧
      run [.ok, .ok, .ok, .ok, .ok, .ok, .ok, .fail 0]
        (seg.appendCapture (fun _ => 0) (blankCapture "work".toList) ⟨"5.0".toList, by decide⟩
          6000000000 : Prog _ _ Empty _) d =
        (.done (seg', .error (.storage (.recoverable e))), d') ∧
      segmentMembers d (.str "120000.incomplete".toList) = some before ∧
      segmentMembers d' (.str "120000.incomplete".toList) = some after ∧
      (validateFiles .ofEnvelopes .byName before seg.metadata).kind = .exact ∧
      (validateFiles .ofEnvelopes .byName after seg'.metadata).kind = .contradictory ∧
      ¬ LeavesNoTrace seg d (seg.appendCapture (fun _ => 0) (blankCapture "work".toList)
        ⟨"5.0".toList, by decide⟩ 6000000000) := by
  obtain ⟨d, seg, d', seg', e, before, after, hwritten, hlinked, -, hrun, hbefore, hafter, hexact,
    hcontradictory⟩ := written_oneFrame
  refine ⟨d, seg, d', seg', e, before, after, hwritten, hlinked, hrun, hbefore, hafter, hexact,
    hcontradictory, fun h => ?_⟩
  obtain ⟨hdir, hmetadata, -⟩ := h _ _ _ _ hrun
  rw [hdir, hbefore, Option.some.injEq] at hafter
  rw [← hafter, hmetadata, hexact] at hcontradictory
  cases hcontradictory

/-! ## Files that hold what is recorded -/

/-- A file of a segment holds these bytes; without any it may be missing, if it is not open. -/
def HoldsFile (members : SegmentDir) (handles : List Str) (filename : Str) (b : Bytes) : Prop :=
  members[OsName.str filename]? = some (.file b) ∨
    (members[OsName.str filename]? = none ∧ b = [] ∧ filename ∉ handles)

/-- The offsets that metadata records are the lengths of the files. -/
structure Offsets (stem : Str) (m : SegmentMetadata) (files : Str → Bytes) : Prop where
  incompleteDir : m.incompleteDir = incompleteName stem
  session : ∀ session n, deriveComponent session = .ok n →
    previousOffset m session = (files n.sessionFilename).length
  activity : m.activityDurableOffset = (files (activityFilename stem)).length

/-- A file that a segment may have: that of a session, or the activity file. -/
def MayHave (stem filename : Str) : Prop :=
  filename = activityFilename stem ∨ ∃ session, sessionFile session = some filename

/-- The segment directory has just these files, and the metadata file records their lengths. -/
structure FilesHeld (stem : Str) (d : StreamDir) (storage : FileStorage) (m : SegmentMetadata)
    (files : Str → Bytes) (members : SegmentDir) : Prop where
  segment : segmentMembers d (.str (incompleteName stem)) = some members
  onDisk : d[OsName.str (incompleteMetaName stem)]? = some (.file (.metadata m))
  storageDir : storage.segmentDir = .str (incompleteName stem)
  storageMeta : storage.metadataPath = .str (incompleteMetaName stem)
  file : ∀ filename, HoldsFile members storage.handles filename (files filename)
  only : ∀ name node, members[name]? = some node →
    ∃ filename, name = OsName.str filename ∧ MayHave stem filename
  offsets : Offsets stem m files

section FilesHeld

variable {stem : Str} {d : StreamDir} {storage : FileStorage} {m : SegmentMetadata}
  {files : Str → Bytes} {members : SegmentDir} {A : Turn → Prop} {ε : Type}

/-- The storage is ready for an append to any file. -/
theorem FilesHeld.ready (h : FilesHeld stem d storage m files members) (filename : Str) :
    storage.Ready d filename members (files filename) (.metadata m) where
  segment := by rw [h.storageDir, h.segment]
  member := h.file filename
  metadata := by rw [h.storageMeta, h.onDisk]
  distinct := by
    rw [h.storageDir, h.storageMeta]
    exact incomplete_ne_meta _ _

theorem FilesHeld.fileAt (h : FilesHeld stem d storage m files members) (filename : Str) :
    storage.fileAt filename d = files filename :=
  (h.ready filename).fileAt

/-- A file was replaced, and only it may have been opened. -/
theorem HoldsFile.insert {handles handles' : List Str} {changed : Str} {b : Bytes}
    (h : ∀ filename, HoldsFile members handles filename (files filename))
    (hhandles : ∀ filename ∈ handles', filename = changed ∨ filename ∈ handles) (filename : Str) :
    HoldsFile (members.insert (.str changed) (.file b)) handles' filename
      (Function.update files changed b filename) := by
  by_cases hname : filename = changed
  · rw [hname, Function.update_self]
    exact .inl (Table.get_insert_self _ _ _)
  · rw [Function.update_of_ne hname, HoldsFile,
      Table.get_insert_ne fun heq => hname (OsName.str.inj heq).symm]
    refine (h filename).imp_right fun hnone => ⟨hnone.1, hnone.2.1, fun hopen => ?_⟩
    exact hnone.2.2 ((hhandles filename hopen).resolve_left hname)

theorem FilesHeld.only_insert (h : FilesHeld stem d storage m files members) {changed : Str}
    (hown : MayHave stem changed) {b : Bytes} (name : OsName) (node : Node Bytes ℕ)
    (hnode : (members.insert (.str changed) (.file b))[name]? = some node) :
    ∃ filename, name = .str filename ∧ MayHave stem filename := by
  by_cases hname : name = .str changed
  · exact ⟨changed, hname, hown⟩
  · rw [Table.get_insert_ne (Ne.symm hname)] at hnode
    exact h.only name node hnode

/-- The directory after a file was replaced. -/
theorem FilesHeld.withFile (h : FilesHeld stem d storage m files members) {storage' : FileStorage}
    (hdir : storage'.segmentDir = storage.segmentDir)
    (hmeta : storage'.metadataPath = storage.metadataPath) {changed : Str}
    (hown : MayHave stem changed)
    (hhandles : ∀ filename ∈ storage'.handles, filename = changed ∨ filename ∈ storage.handles) :
    FilesHeld stem (storage.withFile d members changed (files changed)) storage' m files
      (members.insert (.str changed) (.file (files changed))) where
  segment := by rw [FileStorage.withFile, h.storageDir, segmentMembers_insert_self]
  onDisk := by
    rw [FileStorage.withFile, h.storageDir, Table.get_insert_ne (incomplete_ne_meta _ _), h.onDisk]
  storageDir := hdir.trans h.storageDir
  storageMeta := hmeta.trans h.storageMeta
  file := by
    intro filename
    have hfile := HoldsFile.insert (b := files changed) h.file hhandles filename
    rwa [Function.update_eq_self] at hfile
  only := h.only_insert hown
  offsets := h.offsets

/-- The directory after an append. -/
theorem FilesHeld.appended (h : FilesHeld stem d storage m files members) {changed : Str} {b : Bytes}
    (hown : MayHave stem changed) {m' : SegmentMetadata} (hoffsets : Offsets stem m' (Function.update files changed b)) :
    FilesHeld stem (storage.appended d members changed b m') (storage.opening changed) m'
      (Function.update files changed b) (members.insert (.str changed) (.file b)) where
  segment := by
    rw [FileStorage.appended, FileStorage.withFile, h.storageDir, h.storageMeta,
      segmentMembers_insert_ne (incomplete_ne_meta _ _).symm, segmentMembers_insert_self]
  onDisk := by rw [FileStorage.appended, h.storageMeta, Table.get_insert_self]
  storageDir := by rw [FileStorage.opening_segmentDir, h.storageDir]
  storageMeta := by rw [FileStorage.opening_metadataPath, h.storageMeta]
  file := HoldsFile.insert h.file fun _ hopen => FileStorage.mem_opening_handles.mp hopen
  only := h.only_insert hown
  offsets := hoffsets

/-- **What a failed append leaves.** The files hold what the metadata records, with the frame or
without it, unless the storage is poisoned. -/
theorem FilesHeld.wp_appendFrame (h : FilesHeld stem d storage m files members) {frame : AppendFrame}
    (hown : MayHave stem frame.filename)
    (hoffset : (files frame.filename).length = frame.previousOffset)
    (hproposed : Offsets stem frame.proposedMetadata
      (Function.update files frame.filename (files frame.filename ++ frame.bytes)))
    {Q : Ended ε (FileStorage × Except StorageError SegmentMetadata) → StreamDir → Prop}
    (hok : ∀ d' members', FilesHeld stem d' (storage.opening frame.filename) frame.proposedMetadata
      (Function.update files frame.filename (files frame.filename ++ frame.bytes)) members' →
        Q (.done (storage.opening frame.filename, .ok frame.proposedMetadata)) d')
    (hback : ∀ storage' d' members', FilesHeld stem d' storage' m files members' →
      ∀ e, Q (.done (storage', .error (.recoverable e))) d')
    (hunread : ∀ k, Q (.done (storage,
      .error (.io "read previous metadata" [storage.metadataPath] k))) d)
    (hpoison : ∀ storage e e' d, Q (.done (storage, .error (.poisoned e e'))) d)
    (hkill : ∀ d, Q .killed d) : wp A (storage.appendFrame frame) Q d := by
  refine FileStorage.wp_appendFrame_answers (h.ready _) hoffset
    (hok _ _ (h.appended hown hproposed)) (fun _ => hunread)
    (fun _ _ => hback _ _ _ h) ?_ (fun _ => hpoison) (fun _ => hkill) (fun _ => hkill _)
    (fun _ _ => hkill _) fun _ => hkill _
  rintro - storage' (⟨rfl, -⟩ | rfl)
  · exact hback _ _ _ (h.withFile rfl rfl hown fun _ hopen => .inr hopen)
  · exact hback _ _ _ (h.withFile (FileStorage.opening_segmentDir _ _)
      (FileStorage.opening_metadataPath _ _) hown
      fun _ hopen => FileStorage.mem_opening_handles.mp hopen)

end FilesHeld

/-! ## Appends to a segment -/

/-- What `append_capture` has done to a segment whose files hold what is recorded. -/
inductive CaptureEnded (hash : Str → UInt64) (stem : Str) (seg : SegmentState)
    (files : Str → Bytes) (capture : CaptureResult) (timestamp : F64Text) :
    SegmentState × Except SegmentError AppendOutcome → StreamDir → Prop
  | unchanged {d : StreamDir} {members : SegmentDir}
      (held : FilesHeld stem d seg.storage seg.metadata files members)
      (known : seg.digests[capture.session]? = some (captureDigest hash capture)) :
    CaptureEnded hash stem seg files capture timestamp (seg, .ok .unchanged) d
  | appended {n : DerivedName} {seg' : SegmentState} {d : StreamDir} {members : SegmentDir}
      (name : deriveComponent capture.session = .ok n)
      (new : seg.digests[capture.session]? ≠ some (captureDigest hash capture))
      (held : FilesHeld stem d seg'.storage seg'.metadata
        (Function.update files n.sessionFilename (files n.sessionFilename ++
          serializeFrame capture (seg.metadata.lastDurableFrameId + 1) timestamp)) members)
      (lastId : seg'.metadata.lastDurableFrameId = seg.metadata.lastDurableFrameId + 1)
      (digests : seg'.digests = seg.digests.insert capture.session (captureDigest hash capture)) :
    CaptureEnded hash stem seg files capture timestamp
      (seg', .ok (.appended (seg.metadata.lastDurableFrameId + 1))) d
  | rolledBack {storage : FileStorage} {d : StreamDir} {members : SegmentDir} {e : StorageError}
      (held : FilesHeld stem d storage seg.metadata files members) :
    CaptureEnded hash stem seg files capture timestamp
      ({ seg with storage := storage }, .error (.storage (.recoverable e))) d
  | failed {seg' : SegmentState} {d : StreamDir} {e : SegmentError}
      (hard : e.isRecoverableAppend = false) :
    CaptureEnded hash stem seg files capture timestamp (seg', .error e) d

/-- What `append_activity` has done to a segment whose files hold what is recorded. -/
inductive ActivityEnded (stem : Str) (seg : SegmentState) (files : Str → Bytes) (bytes : Bytes) :
    SegmentState × Except SegmentError Unit → StreamDir → Prop
  | appended {seg' : SegmentState} {d : StreamDir} {members : SegmentDir}
      (held : FilesHeld stem d seg'.storage seg'.metadata
        (Function.update files (activityFilename stem)
          (files (activityFilename stem) ++ bytes)) members)
      (lastId : seg'.metadata.lastDurableFrameId = seg.metadata.lastDurableFrameId)
      (digests : seg'.digests = seg.digests) :
    ActivityEnded stem seg files bytes (seg', .ok ()) d
  | rolledBack {storage : FileStorage} {d : StreamDir} {members : SegmentDir} {e : StorageError}
      (held : FilesHeld stem d storage seg.metadata files members) :
    ActivityEnded stem seg files bytes
      ({ seg with storage := storage }, .error (.storage (.recoverable e))) d
  | failed {seg' : SegmentState} {d : StreamDir} {e : SegmentError}
      (hard : e.isRecoverableAppend = false) :
    ActivityEnded stem seg files bytes (seg', .error e) d

section Append

variable {hash : Str → UInt64} {stem : Str} {d : StreamDir} {seg : SegmentState}
  {files : Str → Bytes} {members : SegmentDir} {A : Turn → Prop} {ε : Type}

/-- The offsets after a frame. -/
theorem Offsets.proposedCapture (h : Offsets stem seg.metadata files) {session : Str}
    {n : DerivedName} (hn : deriveComponent session = .ok n) (frameId now : ℕ) (line : Bytes) :
    Offsets stem (seg.proposedCapture session n.sessionFilename frameId line.length now)
      (Function.update files n.sessionFilename (files n.sessionFilename ++ line)) where
  incompleteDir := h.incompleteDir
  session := by
    intro session' n' hn'
    rw [previousOffset, SegmentState.proposedCapture, Table.get_insert]
    by_cases hsame : session = session'
    · rw [hsame, hn'] at hn
      cases hn
      rw [if_pos hsame, Function.update_self, List.length_append, ← h.session session' n hn', hsame]
    · have hne : n'.sessionFilename ≠ n.sessionFilename := fun heq =>
        hsame (deriveComponent_injective hn hn' (DerivedName.sessionFilename_injective heq.symm))
      rw [if_neg hsame, Function.update_of_ne hne, ← h.session session' n' hn']
      rfl
  activity := by
    rw [Function.update_of_ne (activityFilename_ne_sessionFilename stem n)]
    exact h.activity

/-- The offsets after activity. -/
theorem Offsets.proposedActivity (h : Offsets stem seg.metadata files) (bytes : Bytes) (now : ℕ) :
    Offsets stem (seg.proposedActivity bytes.length now)
      (Function.update files (activityFilename stem)
        (files (activityFilename stem) ++ bytes)) where
  incompleteDir := h.incompleteDir
  session := by
    intro session n hn
    rw [Function.update_of_ne (activityFilename_ne_sessionFilename stem n).symm,
      ← h.session session n hn]
    rfl
  activity := by
    rw [Function.update_self, List.length_append, ← h.activity]
    rfl

/-- **Appending a frame.** -/
theorem FilesHeld.wp_appendCapture (h : FilesHeld stem d seg.storage seg.metadata files members)
    (capture : CaptureResult) (timestamp : F64Text) (now : ℕ) :
    wp A (seg.appendCapture hash capture timestamp now : Prog _ _ ε _)
      (endsIn (fun _ => True) (CaptureEnded hash stem seg files capture timestamp)) d := by
  unfold SegmentState.appendCapture
  dsimp only
  split
  · exact .failed rfl
  rename_i hsound
  have hsame (storage : FileStorage) : { seg with storage := storage, poisoned := false } =
      { seg with storage := storage } := by
    rw [Bool.not_eq_true] at hsound
    rw [← hsound]
  split
  · exact .failed rfl
  split
  · rename_i hknown
    exact .unchanged h hknown
  rename_i hnew
  split
  · exact .failed rfl
  rename_i n hn
  split
  · exact .failed rfl
  rw [wp_bind]
  have hown : MayHave stem n.sessionFilename := .inr ⟨_, by rw [sessionFile, hn]⟩
  refine h.wp_appendFrame hown (h.offsets.session _ _ hn).symm (h.offsets.proposedCapture hn _ _ _)
    ?_ ?_ (fun _ => .failed rfl) (fun _ _ _ _ => .failed rfl) fun _ => trivial
  · intro d' members' hheld
    exact .appended hn hnew hheld rfl rfl
  · intro storage' d' members' hheld e
    simp only [andThen_done, StorageError.isPoisoned, hsame]
    exact .rolledBack hheld

/-- **Appending activity.** -/
theorem FilesHeld.wp_appendActivity (h : FilesHeld stem d seg.storage seg.metadata files members)
    (bytes : Bytes) (now : ℕ) :
    wp A (seg.appendActivity bytes now : Prog _ _ ε _)
      (endsIn (fun _ => True) (ActivityEnded stem seg files bytes)) d := by
  unfold SegmentState.appendActivity
  dsimp only
  split
  · rename_i hempty
    have hfiles : Function.update files (activityFilename stem)
        (files (activityFilename stem) ++ bytes) = files := by
      rw [List.isEmpty_iff.mp hempty, List.append_nil, Function.update_eq_self]
    exact .appended (hfiles.symm ▸ h) rfl rfl
  split
  · exact .failed rfl
  rename_i hsound
  have hsame (storage : FileStorage) : { seg with storage := storage, poisoned := false } =
      { seg with storage := storage } := by
    rw [Bool.not_eq_true] at hsound
    rw [← hsound]
  split
  · exact .failed rfl
  split
  · exact .failed rfl
  rw [wp_bind, h.offsets.incompleteDir, segmentStem_incompleteName]
  refine h.wp_appendFrame (.inl rfl) h.offsets.activity.symm (h.offsets.proposedActivity _ _)
    ?_ ?_ (fun _ => .failed rfl) (fun _ _ _ _ => .failed rfl) fun _ => trivial
  · intro d' members' hheld
    exact .appended hheld rfl rfl
  · intro storage' d' members' hheld e
    simp only [andThen_done, StorageError.isPoisoned, hsame]
    exact .rolledBack hheld

/-- A segment that was just created has no files. -/
theorem Records.filesHeld {decoder : Decoder} (h : Records decoder stem d seg .empty ∅) :
    FilesHeld stem d seg.storage seg.metadata (fun _ => []) ∅ where
  segment := h.segment
  onDisk := h.onDisk
  storageDir := h.storageDir
  storageMeta := h.storageMeta
  file := by
    refine fun filename => .inr ⟨Table.get_empty _, rfl, fun hopen => ?_⟩
    have hsome := h.handles filename hopen
    rw [Table.get_empty] at hsome
    cases hsome
  only := fun _ _ hnode => by
    rw [Table.get_empty] at hnode
    cases hnode
  offsets :=
    { incompleteDir := h.metadata.incomplete
      session := fun session _ _ => previousOffset_of_log h.metadata session
      activity := h.metadata.activity }

end Append

/-! ## Histories with appends that fail -/

/-- The states of the writer when appends may fail: a segment was created under a stem, and then
appends were made to it, with whatever answer. -/
inductive Tried (hash : Str → UInt64) (stem : Str) : StreamDir → SegmentState → Prop
  | create {ts : List Turn} {startWall : OffsetDateTime} {startMonotonic : ℕ}
      {localOffset : UtcOffset} {tz : Option Str} {interval : ℕ} {d d' : StreamDir}
      {seg : SegmentState} (seen : (∀ t ∈ ts, noticed t) ∨ NamesFree d stem)
      (run : run ts (SegmentState.create stem startWall startMonotonic localOffset tz interval) d =
        (.done seg, d')) : Tried hash stem d' seg
  | capture {ts : List Turn} {capture : CaptureResult} {timestamp : F64Text} {now : ℕ}
      {d d' : StreamDir} {seg seg' : SegmentState} {answer : Except SegmentError AppendOutcome}
      (before : Tried hash stem d seg)
      (run : run ts (seg.appendCapture hash capture timestamp now : Prog _ _ Empty _) d =
        (.done (seg', answer), d')) : Tried hash stem d' seg'
  | activity {ts : List Turn} {bytes : Bytes} {now : ℕ} {d d' : StreamDir}
      {seg seg' : SegmentState} {answer : Except SegmentError Unit}
      (before : Tried hash stem d seg)
      (run : run ts (seg.appendActivity bytes now : Prog _ _ Empty _) d =
        (.done (seg', answer), d')) : Tried hash stem d' seg'

/-- The history of a writer whose appends all worked. -/
theorem Written.tried {hash : Str → UInt64} {admitted : ℕ → Prop} {stem : Str} {d : StreamDir}
    {seg : SegmentState} (h : Written hash admitted stem d seg) : Tried hash stem d seg := by
  induction h with
  | create seen hrun => exact .create seen hrun
  | capture _ _ hrun ih => exact ih.capture hrun
  | activity _ _ _ hrun ih => exact ih.activity hrun

/-- An open segment that lost a rollback. -/
def Spoiled (seg : SegmentState) : Prop :=
  seg.poisoned = true ∧ seg.closed = none

/-- An open segment whose files hold what its metadata records, which is some log. -/
structure Recording (stem : Str) (d : StreamDir) (seg : SegmentState) : Prop where
  held : ∃ files members, FilesHeld stem d seg.storage seg.metadata files members ∧
    (seg.metadata.hasDurableFrames = true → ∃ filename, files filename ≠ [])
  log : ∃ log : SegmentLog, log.MetadataOf stem seg.metadata
  incompleteDir : seg.incompleteDir = incompleteName stem
  metadataPath : seg.metadataPath = incompleteMetaName stem
  sound : seg.poisoned = false
  isOpen : seg.closed = none

section Recording

variable {hash : Str → UInt64} {stem : Str} {d d' : StreamDir} {seg seg' : SegmentState}
  {A : Turn → Prop} {ε : Type}

/-- A segment that was just created records the empty log. -/
theorem Records.recording {decoder : Decoder} (h : Records decoder stem d seg .empty ∅) :
    Recording stem d seg where
  held := ⟨_, _, h.filesHeld, fun hframes => by rw [h.metadata.hasFrames] at hframes; cases hframes⟩
  log := ⟨_, h.metadata⟩
  incompleteDir := h.incompleteDir
  metadataPath := h.metadataPath
  sound := h.sound
  isOpen := h.isOpen

theorem Recording.capture (h : Recording stem d seg) (capture : CaptureResult)
    (timestamp : F64Text) (now : ℕ) :
    wp A (seg.appendCapture hash capture timestamp now : Prog _ _ ε _)
      (endsIn (fun _ => True) fun r d' => Spoiled r.1 ∨ Recording stem d' r.1) d := by
  obtain ⟨files, members, hheld, hfilled⟩ := h.held
  obtain ⟨log, hlog⟩ := h.log
  unfold SegmentState.appendCapture
  dsimp only
  split
  · exact .inr h
  split
  · exact .inr h
  split
  · exact .inr h
  split
  · exact .inr h
  rename_i n hn
  split
  · exact .inr h
  rw [wp_bind]
  have hown : MayHave stem n.sessionFilename := .inr ⟨_, by rw [sessionFile, hn]⟩
  refine hheld.wp_appendFrame hown (hheld.offsets.session _ _ hn).symm
    (hheld.offsets.proposedCapture hn _ _ _) ?_ ?_ (fun _ => .inr ?_) (fun _ _ _ _ => .inl ⟨rfl, h.isOpen⟩)
    fun _ => trivial
  · intro d' members' hheld'
    refine .inr ⟨⟨_, _, hheld', fun _ => ⟨n.sessionFilename, ?_⟩⟩, ⟨_,
      metadataOf_proposedCapture hlog capture n timestamp now⟩, h.incompleteDir, h.metadataPath,
      h.sound, h.isOpen⟩
    rw [Function.update_self, serializeFrame, ← List.append_assoc]
    exact List.concat_ne_nil _ _
  · intro storage' d' members' hheld' e
    exact .inr ⟨⟨_, _, hheld', hfilled⟩, ⟨_, hlog⟩, h.incompleteDir, h.metadataPath, rfl, h.isOpen⟩
  · exact ⟨⟨_, _, hheld, hfilled⟩, ⟨_, hlog⟩, h.incompleteDir, h.metadataPath, rfl, h.isOpen⟩

theorem Recording.activity (h : Recording stem d seg) (bytes : Bytes) (now : ℕ) :
    wp A (seg.appendActivity bytes now : Prog _ _ ε _)
      (endsIn (fun _ => True) fun r d' => Spoiled r.1 ∨ Recording stem d' r.1) d := by
  obtain ⟨files, members, hheld, hfilled⟩ := h.held
  obtain ⟨log, hlog⟩ := h.log
  unfold SegmentState.appendActivity
  dsimp only
  split
  · exact .inr h
  split
  · exact .inr h
  split
  · exact .inr h
  split
  · exact .inr h
  rw [wp_bind, hheld.offsets.incompleteDir, segmentStem_incompleteName]
  refine hheld.wp_appendFrame (.inl rfl) hheld.offsets.activity.symm
    (hheld.offsets.proposedActivity _ _) ?_ ?_ (fun _ => .inr ?_) (fun _ _ _ _ => .inl ⟨rfl, h.isOpen⟩)
    fun _ => trivial
  · intro d' members' hheld'
    refine .inr ⟨⟨_, _, hheld', fun hframes => ?_⟩, ⟨_, metadataOf_proposedActivity hlog bytes now⟩,
      h.incompleteDir, h.metadataPath, h.sound, h.isOpen⟩
    obtain ⟨filename, hfile⟩ := hfilled hframes
    refine ⟨filename, ?_⟩
    by_cases hname : filename = activityFilename stem
    · rw [hname, Function.update_self]
      exact List.append_ne_nil_of_left_ne_nil (hname ▸ hfile) _
    · rwa [Function.update_of_ne hname]
  · intro storage' d' members' hheld' e
    exact .inr ⟨⟨_, _, hheld', hfilled⟩, ⟨_, hlog⟩, h.incompleteDir, h.metadataPath, rfl, h.isOpen⟩
  · exact ⟨⟨_, _, hheld, hfilled⟩, ⟨_, hlog⟩, h.incompleteDir, h.metadataPath, rfl, h.isOpen⟩

/-- A poisoned segment stays as it is. -/
theorem Spoiled.capture (h : Spoiled seg) {capture : CaptureResult}
    {timestamp : F64Text} {now : ℕ} {ts : List Turn} {answer : Except SegmentError AppendOutcome}
    (hrun : run ts (seg.appendCapture hash capture timestamp now : Prog _ _ Empty _) d =
      (.done (seg', answer), d')) : Spoiled seg' := by
  rw [SegmentState.appendCapture, if_pos h.1] at hrun
  cases hrun
  exact h

theorem Spoiled.activity (h : Spoiled seg) {bytes : Bytes} {now : ℕ} {ts : List Turn}
    {answer : Except SegmentError Unit}
    (hrun : run ts (seg.appendActivity bytes now : Prog _ _ Empty _) d =
      (.done (seg', answer), d')) : Spoiled seg' := by
  rw [SegmentState.appendActivity, if_pos h.1] at hrun
  split at hrun
  · cases hrun
    exact h
  · cases hrun
    exact h

/-- **Whatever appends fail, an open segment records a log, until it is poisoned.** -/
theorem Tried.recording (h : Tried hash stem d seg) : Spoiled seg ∨ Recording stem d seg := by
  induction h with
  | create seen hrun => exact .inr (records_of_create .ofEnvelopes seen hrun).1.recording
  | capture _ hrun ih =>
    rcases ih with hspoiled | hrecording
    · exact .inl (hspoiled.capture hrun)
    · exact wp_run_eq hrun (hrecording.capture _ _ _) trivial fun _ _ => trivial
  | activity _ hrun ih =>
    rcases ih with hspoiled | hrecording
    · exact .inl (hspoiled.activity hrun)
    · exact wp_run_eq hrun (hrecording.activity _ _) trivial fun _ _ => trivial

end Recording

end SolstoneTmux
