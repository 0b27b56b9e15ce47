import SolstoneTmux.Storage.Calls

/-!
# The durable append

`FileStorage` appends a frame to a session file and then replaces the metadata file. When either
part fails it rolls the other back, and when the rollback fails too the segment is poisoned
(`appendFrame`). The failures that the tests inject through a `FaultPlan` are failures of the calls
themselves here: an injected append failure is a write that stopped after half of its bytes.
-/

namespace SolstoneTmux

open Foundations Foundations.Prog

/-- `AppendFrame`. -/
structure AppendFrame where
  filename : Str
  previousOffset : ℕ
  bytes : Bytes
  proposedMetadata : SegmentMetadata

/-- `FileStorage`: the segment's directory and metadata file, and the files it has open. -/
structure FileStorage where
  segmentDir : OsName
  metadataPath : OsName
  handles : List Str
  deriving DecidableEq

namespace FileStorage

variable {ε : Type}

/-- `FileStorage::handle`: the storage with the file open. -/
def handle (storage : FileStorage) (filename : Str) :
    Prog StreamDir Turn StorageError FileStorage :=
  let path : RelPath := [storage.segmentDir, .str filename]
  if filename ∈ storage.handles then done storage
  else
    (call (.io "open JSONL" path) (openMember storage.segmentDir (.str filename))).bind fun _ =>
    (call (.io "set JSONL permissions" path) barrier).bind fun _ =>
    (call (.io "inspect JSONL" path)
      (memberMetadata storage.segmentDir (.str filename))).bind fun node =>
    if node.isFile then done { storage with handles := filename :: storage.handles }
    else raise (.invalidTarget path)

/-- `FileStorage::append_inner` after the file is open. -/
def appendInner (storage : FileStorage) (frame : AppendFrame) :
    Prog StreamDir Turn StorageError Unit :=
  let path : RelPath := [storage.segmentDir, .str frame.filename]
  (call (.io "inspect append offset" path)
    (memberMetadata storage.segmentDir (.str frame.filename))).bind fun node =>
  if node.memberLength ≠ frame.previousOffset then
    raise (.offsetMismatch path frame.previousOffset node.memberLength)
  else
    (call (.io "seek append" path) barrier).bind fun _ =>
    (call (.io "append" path)
      (writeAll storage.segmentDir (.str frame.filename) frame.previousOffset
        frame.bytes)).bind fun _ =>
    (call (.io "fsync JSONL" path) barrier).bind fun _ =>
    syncDirectory [storage.segmentDir]

/-- `FileStorage::rollback`. -/
def rollback (storage : FileStorage) (filename : Str) (offset : ℕ) :
    Prog StreamDir Turn StorageError Unit :=
  let path : RelPath := [storage.segmentDir, .str filename]
  if filename ∈ storage.handles then
    (call (.io "truncate rollback" path)
      (setLen storage.segmentDir (.str filename) offset)).bind fun _ =>
    call (.io "fsync rollback" path) barrier
  else done ()

/-- The answer after a failed append whose bytes are rolled back. -/
def rolledBack (storage : FileStorage) (frame : AppendFrame) (error : StorageError) :
    Prog StreamDir Turn ε (FileStorage × Except StorageError SegmentMetadata) :=
  (rollback storage frame.filename frame.previousOffset).attempt.bind fun
    | .ok _ => done (storage, .error (.recoverable error))
    | .error rollbackError => done (storage, .error (.poisoned error rollbackError))

/-- The error of an `Except`. -/
def errorOf : Except StorageError Unit → Option StorageError
  | .ok _ => none
  | .error e => some e

/-- The answer after a failed metadata write: bytes and metadata are both rolled back. -/
def rolledBackBoth (storage : FileStorage) (frame : AppendFrame) (previous : Contents)
    (error : StorageError) :
    Prog StreamDir Turn ε (FileStorage × Except StorageError SegmentMetadata) :=
  (rollback storage frame.filename frame.previousOffset).attempt.bind fun json =>
  (atomicWriteBytes storage.metadataPath previous).attempt.bind fun metadata =>
  match errorOf json, errorOf metadata with
  | none, none => done (storage, .error (.recoverable error))
  | j, m => done (storage, .error (.poisoned error (.rollbackGroup j m)))

/-- `FileStorage::append_frame`. -/
def appendFrame (storage : FileStorage) (frame : AppendFrame) :
    Prog StreamDir Turn ε (FileStorage × Except StorageError SegmentMetadata) :=
  (readFile storage.metadataPath).bind fun
    | .error kind =>
      done (storage, .error (.io "read previous metadata" [storage.metadataPath] kind))
    | .ok previous =>
      (storage.handle frame.filename).attempt.bind fun
        | .error error => rolledBack storage frame error
        | .ok storage =>
          (appendInner storage frame).attempt.bind fun
            | .error error => rolledBack storage frame error
            | .ok _ =>
              (atomicWriteMetadata storage.metadataPath frame.proposedMetadata).attempt.bind fun
                | .error error => rolledBackBoth storage frame previous error
                | .ok _ => done (storage, .ok frame.proposedMetadata)

/-- `FileStorage::sync_and_close`: every open file is flushed, in the order of the names; the
handles are dropped whether or not that works. -/
def syncHandles (storage : FileStorage) : Prog StreamDir Turn StorageError Unit :=
  forEach (storage.handles.insertionSort (strLe · ·)) fun filename =>
    call (.io "final fsync" [storage.segmentDir, .str filename]) barrier

/-! ## What an append does -/

/-- A segment that is ready for an append of a file with content `b`: its directory and metadata
file are there, and a file that is not there yet is not open either. -/
structure Ready (storage : FileStorage) (d : StreamDir) (filename : Str) (members : SegmentDir)
    (b : Bytes) (previous : Contents) : Prop where
  segment : segmentMembers d storage.segmentDir = some members
  member : members[OsName.str filename]? = some (.file b) ∨
    (members[OsName.str filename]? = none ∧ b = [] ∧ filename ∉ storage.handles)
  metadata : d[storage.metadataPath]? = some (.file previous)
  distinct : storage.segmentDir ≠ storage.metadataPath

/-- The stream directory with a session file's content replaced. -/
def withFile (storage : FileStorage) (d : StreamDir) (members : SegmentDir) (filename : Str)
    (b : Bytes) : StreamDir :=
  d.insert storage.segmentDir (.directory (members.insert (.str filename) (.file b)))

/-- The stream directory after an append: the session file and the metadata are both new. -/
def appended (storage : FileStorage) (d : StreamDir) (members : SegmentDir) (filename : Str)
    (b : Bytes) (m : SegmentMetadata) : StreamDir :=
  (storage.withFile d members filename b).insert storage.metadataPath (.file (.metadata m))

/-- The storage after a file was opened, when it was not yet. -/
def opening (storage : FileStorage) (filename : Str) : FileStorage :=
  if filename ∈ storage.handles then storage
  else { storage with handles := filename :: storage.handles }

@[simp] theorem opening_segmentDir (storage : FileStorage) (filename : Str) :
    (storage.opening filename).segmentDir = storage.segmentDir := by
  unfold opening
  split <;> rfl

@[simp] theorem opening_metadataPath (storage : FileStorage) (filename : Str) :
    (storage.opening filename).metadataPath = storage.metadataPath := by
  unfold opening
  split <;> rfl

theorem mem_opening_handles {storage : FileStorage} {filename f : Str} :
    f ∈ (storage.opening filename).handles ↔ f = filename ∨ f ∈ storage.handles := by
  unfold opening
  split
  · rename_i h
    exact ⟨.inr, fun hf => hf.elim (fun hf => hf ▸ h) id⟩
  · rw [List.mem_cons]

theorem withFile_of_get {storage : FileStorage} {d : StreamDir} {members : SegmentDir}
    {filename : Str} {b : Bytes} (hd : segmentMembers d storage.segmentDir = some members)
    (hm : members[OsName.str filename]? = some (.file b)) :
    storage.withFile d members filename b = d := by
  rw [withFile, Table.insert_of_get hm, Table.insert_of_get (segmentMembers_eq_some.mp hd)]

section Rules

variable {A : Turn → Prop} {storage : FileStorage} {d : StreamDir} {members : SegmentDir}
  {frame : AppendFrame} {b : Bytes} {previous : Contents}

/-- A rollback of a file that is not open does nothing. -/
theorem wp_rolledBack_closed {Q : Ended ε (FileStorage × Except StorageError SegmentMetadata) →
    StreamDir → Prop} {error : StorageError} (hclosed : frame.filename ∉ storage.handles)
    (hback : Q (.done (storage, .error (.recoverable error))) d) :
    wp A (rolledBack storage frame error) Q d := by
  rw [rolledBack, rollback, if_neg hclosed]
  exact hback

/-- A rollback of an open file cuts it to its recorded bytes. -/
theorem wp_rollback {Q : Ended StorageError Unit → StreamDir → Prop} {filename : Str} {offset : ℕ}
    (hopen : filename ∈ storage.handles) (hmembers : segmentMembers d storage.segmentDir = some members)
    (hfile : members[OsName.str filename]? = some (.file b))
    (hok : Q (.done ()) (storage.withFile d members filename (resize b offset)))
    (hfail : canFail A → ∀ e d, Q (.raised e) d) (hkill : canKill A → ∀ d, Q .killed d) :
    wp A (rollback storage filename offset) Q d := by
  have hat : memberAt d storage.segmentDir (.str filename) = some (.file b) := by
    rw [memberAt_of_members hmembers, hfile]
  have hcut : resizedMember storage.segmentDir (.str filename) offset d =
      (.ok (), storage.withFile d members filename (resize b offset)) := by
    rw [resizedMember, hat, withFile]
    simp only [setMember_of_members hmembers]
  rw [rollback, if_pos hopen, wp_bind]
  refine wp_call_atomic hcut ?_ (fun hf => hfail hf _ _) fun hk => hkill hk _
  rw [andThen_done]
  exact wp_call_barrier hok (fun hf => hfail hf _ _) fun hk => hkill hk _

theorem wp_rolledBack_open {Q : Ended ε (FileStorage × Except StorageError SegmentMetadata) →
    StreamDir → Prop} {error : StorageError} (hopen : frame.filename ∈ storage.handles)
    (hmembers : segmentMembers d storage.segmentDir = some members)
    (hfile : members[OsName.str frame.filename]? = some (.file b))
    (hback : Q (.done (storage, .error (.recoverable error)))
      (storage.withFile d members frame.filename (resize b frame.previousOffset)))
    (hpoison : canFail A → ∀ storage e e' d, Q (.done (storage, .error (.poisoned e e'))) d)
    (hkill : canKill A → ∀ d, Q .killed d) : wp A (rolledBack storage frame error) Q d := by
  rw [rolledBack, wp_bind, wp_attempt]
  exact wp_rollback hopen hmembers hfile hback (fun hf _ _ => hpoison hf _ _ _ _) hkill

/-- A rollback of both the file and the metadata sets both back. -/
theorem wp_rolledBackBoth {Q : Ended ε (FileStorage × Except StorageError SegmentMetadata) →
    StreamDir → Prop} {error : StorageError} (hopen : frame.filename ∈ storage.handles)
    (hmembers : segmentMembers d storage.segmentDir = some members)
    (hfile : members[OsName.str frame.filename]? = some (.file b))
    (hback : Q (.done (storage, .error (.recoverable error)))
      ((storage.withFile d members frame.filename (resize b frame.previousOffset)).insert
        storage.metadataPath (.file previous)))
    (hpoison : ∀ storage e e' d, Q (.done (storage, .error (.poisoned e e'))) d)
    (hkill : ∀ d, Q .killed d) : wp A (rolledBackBoth storage frame previous error) Q d := by
  have hsecond (json : Except StorageError Unit) (d : StreamDir)
      (hjson : errorOf json = none → Q (.done (storage, .error (.recoverable error)))
        (d.insert storage.metadataPath (.file previous))) :
      wp A ((atomicWriteBytes storage.metadataPath previous).attempt.bind
        fun metadata => match errorOf json, errorOf metadata with
          | none, none => (done (storage, .error (.recoverable error)) : Prog StreamDir Turn ε _)
          | j, m => done (storage, .error (.poisoned error (.rollbackGroup j m)))) Q d := by
    have hraised (e : StorageError) (d : StreamDir) : wp A
        (match errorOf json, errorOf (.error e) with
          | none, none => (done (storage, .error (.recoverable error)) : Prog StreamDir Turn ε _)
          | j, m => done (storage, .error (.poisoned error (.rollbackGroup j m)))) Q d := by
      split
      · rename_i h
        cases h
      · exact hpoison _ _ _ _
    rw [wp_bind, wp_attempt]
    refine wp_atomicWriteBytes (fun _ => ?_) (fun _ e => hraised e _) (fun _ _ e => hraised e _)
      (fun _ => hkill _) fun _ _ => hkill _
    rw [attempted_done, andThen_done]
    split
    · rename_i h _
      exact hjson h
    · exact hpoison _ _ _ _
  rw [rolledBackBoth, wp_bind, wp_attempt]
  exact wp_rollback hopen hmembers hfile (hsecond (.ok ()) _ fun _ => hback)
    (fun _ e d => hsecond (.error e) d nofun) fun _ => hkill

/-- Opening a file: it is there afterwards, empty when it is new. -/
theorem wp_handle {Q : Ended StorageError FileStorage → StreamDir → Prop} {filename : Str}
    (ready : Ready storage d filename members b previous)
    (hok : Q (.done (storage.opening filename)) (storage.withFile d members filename b))
    (hfail : canFail A → filename ∉ storage.handles → ∀ e, Q (.raised e) d)
    (hlate : canFail A → filename ∉ storage.handles →
      ∀ e, Q (.raised e) (storage.withFile d members filename b)) (hkill : canKill A → Q .killed d)
    (hkill' : canKill A → Q .killed (storage.withFile d members filename b)) :
    wp A (storage.handle filename) Q d := by
  unfold handle
  split
  · rename_i hopen
    rcases ready.member with hm | ⟨-, -, hnot⟩
    · rw [opening, if_pos hopen, withFile_of_get ready.segment hm] at hok
      exact hok
    · exact absurd hopen hnot
  · rename_i hclosed
    have hopen : openedMember storage.segmentDir (.str filename) d =
        (.ok (), storage.withFile d members filename b) := by
      rw [openedMember, ready.segment]
      rcases ready.member with hm | ⟨hm, rfl, -⟩
      · simp only [hm, withFile_of_get ready.segment hm]
      · simp only [hm, setMember_of_members ready.segment, withFile]
    have hat : memberAt (storage.withFile d members filename b) storage.segmentDir
        (.str filename) = some (.file b) := by
      rw [withFile, memberAt_of_members (segmentMembers_insert_self _ _ _), Table.get_insert_self]
    rw [wp_bind]
    refine wp_call_atomic hopen ?_ (fun hf => hfail hf hclosed _) hkill
    rw [andThen_done, wp_bind]
    refine wp_call_barrier ?_ (fun hf => hlate hf hclosed _) hkill'
    rw [andThen_done, wp_bind]
    refine wp_call_query (a := .file b) (by rw [hat]) ?_ (fun hf => hlate hf hclosed _) hkill'
    rw [opening, if_neg hclosed] at hok
    exact hok

/-- Writing at the end of an open file. -/
theorem wp_appendInner {Q : Ended StorageError Unit → StreamDir → Prop}
    (hmembers : segmentMembers d storage.segmentDir = some members)
    (hfile : members[OsName.str frame.filename]? = some (.file b))
    (hlen : b.length = frame.previousOffset)
    (hok : Q (.done ()) (storage.withFile d members frame.filename (b ++ frame.bytes)))
    (hfail : ∀ n, canFail A → ∀ e,
      Q (.raised e) (storage.withFile d members frame.filename (b ++ frame.bytes.take n)))
    (hkill : ∀ n, canKill A →
      Q .killed (storage.withFile d members frame.filename (b ++ frame.bytes.take n))) :
    wp A (storage.appendInner frame) Q d := by
  have hat : memberAt d storage.segmentDir (.str frame.filename) = some (.file b) := by
    rw [memberAt_of_members hmembers, hfile]
  have hwritten : ∀ data, writtenTo storage.segmentDir (.str frame.filename)
      frame.previousOffset data d = storage.withFile d members frame.filename (b ++ data) := by
    intro data
    rw [writtenTo, hat, withFile, ← hlen]
    simp only [setMember_of_members hmembers, writeAt_end]
  have hzero : storage.withFile d members frame.filename (b ++ frame.bytes.take 0) = d := by
    rw [List.take_zero, List.append_nil, withFile_of_get hmembers hfile]
  have hall : storage.withFile d members frame.filename
      (b ++ frame.bytes.take frame.bytes.length) =
        storage.withFile d members frame.filename (b ++ frame.bytes) := by
    rw [List.take_length]
  have hfail0 : canFail A → ∀ e, Q (.raised e) d := fun hf e => hzero ▸ hfail 0 hf e
  have hkill0 : canKill A → Q .killed d := fun hk => hzero ▸ hkill 0 hk
  have hfailAll : canFail A → ∀ e,
      Q (.raised e) (storage.withFile d members frame.filename (b ++ frame.bytes)) :=
    fun hf e => hall ▸ hfail _ hf e
  have hkillAll : canKill A →
      Q .killed (storage.withFile d members frame.filename (b ++ frame.bytes)) :=
    fun hk => hall ▸ hkill _ hk
  rw [appendInner, wp_bind]
  refine wp_call_query (a := .file b) (by rw [hat]) ?_ (fun hf => hfail0 hf _) hkill0
  rw [andThen_done, if_neg (by simp [Node.memberLength, hlen]), wp_bind]
  refine wp_call_barrier ?_ (fun hf => hfail0 hf _) hkill0
  rw [andThen_done, wp_bind, call, wp_bind, writeAll, wp_sys]
  simp only [hwritten]
  refine ⟨fun _ => ?_, fun n hn => hfail n (.inl ⟨n, hn⟩) _, fun n hn => hkill n ⟨n, hn⟩,
    fun hb => hfail0 (.inr hb) _⟩
  rw [andThen_done, orRaise_ok, wp_done, andThen_done, wp_bind]
  refine wp_call_barrier ?_ (fun hf => hfailAll hf _) hkillAll
  rw [andThen_done]
  exact wp_call_barrier hok (fun hf => hfailAll hf _) hkillAll

theorem resize_append_take (b data : Bytes) (n : ℕ) : resize (b ++ data.take n) b.length = b := by
  rw [resize_of_le (by rw [List.length_append]; omega), List.take_left]

/-- **What an append answers.** It returns with the bytes and the metadata both new. A failure that
is rolled back leaves the directory as it was, but for the file once it was opened; every other
failure changes nothing or poisons the storage. A kill leaves the directory untouched, with a part
of the bytes, or with everything written. -/
theorem wp_appendFrame_answers {Q : Ended ε (FileStorage × Except StorageError SegmentMetadata) →
    StreamDir → Prop} (ready : Ready storage d frame.filename members b previous)
    (hlen : b.length = frame.previousOffset)
    (hok : Q (.done (storage.opening frame.filename, .ok frame.proposedMetadata))
      (storage.appended d members frame.filename (b ++ frame.bytes) frame.proposedMetadata))
    (hunread : canFail A → ∀ k, Q (.done (storage, .error
      (.io "read previous metadata" [storage.metadataPath] k))) d)
    (hunopened : canFail A → frame.filename ∉ storage.handles → ∀ e,
      Q (.done (storage, .error (.recoverable e))) d)
    (hback : canFail A → ∀ storage', storage' = storage ∧ frame.filename ∉ storage.handles ∨
      storage' = storage.opening frame.filename →
        ∀ e, Q (.done (storage', .error (.recoverable e))) (storage.withFile d members frame.filename b))
    (hpoison : canFail A → ∀ storage e e' d, Q (.done (storage, .error (.poisoned e e'))) d)
    (hany : canFail A → ∀ d, Q .killed d)
    (hkill : canKill A → Q .killed d)
    (hpart : ∀ n, canKill A →
      Q .killed (storage.withFile d members frame.filename (b ++ frame.bytes.take n)))
    (hall : canKill A → Q .killed
      (storage.appended d members frame.filename (b ++ frame.bytes) frame.proposedMetadata)) :
    wp A (storage.appendFrame frame) Q d := by
  have hopened : ∀ c, segmentMembers (storage.withFile d members frame.filename c)
      (storage.opening frame.filename).segmentDir =
        some (members.insert (.str frame.filename) (.file c)) := by
    intro c
    rw [opening_segmentDir, withFile, segmentMembers_insert_self]
  have htwice : ∀ c c', (storage.opening frame.filename).withFile
      (storage.withFile d members frame.filename c)
      (members.insert (.str frame.filename) (.file c)) frame.filename c' =
        storage.withFile d members frame.filename c' := by
    intro c c'
    simp only [withFile, opening_segmentDir, Table.insert_insert]
  have hmeta : ∀ c, (storage.withFile d members frame.filename c)[storage.metadataPath]? =
      some (.file previous) := by
    intro c
    rw [withFile, Table.get_insert_ne ready.distinct, ready.metadata]
  have hplain : ∀ c, PlainTarget (storage.withFile d members frame.filename c)
      storage.metadataPath := by
    intro c node hnode
    rw [hmeta] at hnode
    cases hnode
    rfl
  have hhandle : frame.filename ∈ (storage.opening frame.filename).handles :=
    mem_opening_handles.mpr (.inl rfl)
  have hback' : canFail A → ∀ e, Q (.done (storage.opening frame.filename, .error (.recoverable e)))
      (storage.withFile d members frame.filename b) := fun hf => hback hf _ (.inr rfl)
  have hrolled : ∀ n, canFail A → ∀ e,
      wp A (rolledBack (storage.opening frame.filename) frame e) Q
        (storage.withFile d members frame.filename (b ++ frame.bytes.take n)) := by
    intro n hf e
    refine wp_rolledBack_open hhandle (hopened _) (Table.get_insert_self _ _ _) ?_ hpoison
      fun _ => hany hf
    rw [htwice, ← hlen, resize_append_take]
    exact hback' hf e
  have hmoved : ∀ d₁ : StreamDir, (∀ name, name ≠ storage.metadataPath →
      d₁[name]? = (storage.withFile d members frame.filename (b ++ frame.bytes))[name]?) →
        canFail A → ∀ e, wp A (rolledBackBoth (storage.opening frame.filename) frame previous e) Q
          d₁ := by
    intro d₁ hd₁ hf e
    have hsegment : segmentMembers d₁ (storage.opening frame.filename).segmentDir =
        some (members.insert (.str frame.filename) (.file (b ++ frame.bytes))) := by
      have hsame := hd₁ _ ready.distinct
      rw [opening_segmentDir, segmentMembers_eq_some, hsame, ← segmentMembers_eq_some,
        ← opening_segmentDir storage frame.filename, hopened]
    refine wp_rolledBackBoth hhandle hsegment (Table.get_insert_self _ _ _) ?_ (hpoison hf)
      (hany hf)
    have hsame : ((storage.opening frame.filename).withFile d₁
        (members.insert (.str frame.filename) (.file (b ++ frame.bytes))) frame.filename
        (resize (b ++ frame.bytes) frame.previousOffset)).insert
          (storage.opening frame.filename).metadataPath (.file previous) =
            storage.withFile d members frame.filename b := by
      have hcut : resize (b ++ frame.bytes) frame.previousOffset = b := by
        have := resize_append_take b frame.bytes frame.bytes.length
        rwa [List.take_length, hlen] at this
      rw [hcut, withFile, Table.insert_insert, opening_segmentDir, opening_metadataPath]
      refine Table.ext fun name => ?_
      rw [Table.get_insert]
      split
      · rename_i hname
        rw [← hname, hmeta]
      · rename_i hname
        rw [withFile, Table.get_insert, Table.get_insert, hd₁ name (Ne.symm hname), withFile]
        split
        · rfl
        · rename_i hother
          rw [Table.get_insert_ne hother]
    rw [hsame]
    exact hback' hf e
  have hpartAll : canKill A → Q .killed
      (storage.withFile d members frame.filename (b ++ frame.bytes)) := by
    intro hk
    have := hpart frame.bytes.length hk
    rwa [List.take_length] at this
  have hpart0 : canKill A → Q .killed (storage.withFile d members frame.filename b) := by
    intro hk
    have := hpart 0 hk
    rwa [List.take_zero, List.append_nil] at this
  rw [appendFrame, readFile, wp_bind]
  refine wp_query ?_ (fun hf => hunread hf _) hkill
  rw [ready.metadata, andThen_done, wp_bind, wp_attempt]
  refine wp_handle ready ?_ (fun hf hclosed e => wp_rolledBack_closed hclosed (hunopened hf hclosed _))
    (fun hf hclosed e => wp_rolledBack_closed hclosed (hback hf _ (.inl ⟨rfl, hclosed⟩) _)) hkill hpart0
  rw [attempted_done, andThen_done, wp_bind, wp_attempt]
  refine wp_appendInner (hopened b) (Table.get_insert_self _ _ _) hlen ?_
    (fun n hf e => by rw [htwice]; exact hrolled n hf e)
    (fun n hk => by rw [htwice]; exact hpart n hk)
  rw [htwice, attempted_done, andThen_done, wp_bind, wp_attempt, opening_metadataPath]
  refine wp_atomicWriteBytes (fun _ => hok) ?_
    (fun _ hf e => hmoved _ (fun name hname => Table.get_insert_ne (Ne.symm hname)) hf e)
    hpartAll (fun _ => hall)
  rintro (hf | hbad) e
  · exact hmoved _ (fun _ _ => rfl) hf e
  · exact absurd (hplain _) hbad

/-- **What an append does.** It returns with the bytes and the metadata both new; a kill leaves the
directory untouched, with a part of the bytes, or with everything written. -/
theorem wp_appendFrame {Q : Ended ε (FileStorage × Except StorageError SegmentMetadata) →
    StreamDir → Prop} (ready : Ready storage d frame.filename members b previous)
    (hlen : b.length = frame.previousOffset)
    (hok : Q (.done (storage.opening frame.filename, .ok frame.proposedMetadata))
      (storage.appended d members frame.filename (b ++ frame.bytes) frame.proposedMetadata))
    (herr : canFail A → ∀ storage e d, Q (.done (storage, .error e)) d)
    (hany : canFail A → ∀ d, Q .killed d)
    (hkill : canKill A → Q .killed d)
    (hpart : ∀ n, canKill A →
      Q .killed (storage.withFile d members frame.filename (b ++ frame.bytes.take n)))
    (hall : canKill A → Q .killed
      (storage.appended d members frame.filename (b ++ frame.bytes) frame.proposedMetadata)) :
    wp A (storage.appendFrame frame) Q d :=
  wp_appendFrame_answers ready hlen hok (fun hf _ => herr hf _ _ _) (fun hf _ _ => herr hf _ _ _)
    (fun hf _ _ _ => herr hf _ _ _) (fun hf _ _ _ _ => herr hf _ _ _) hany hkill hpart hall

end Rules

end FileStorage

end SolstoneTmux
