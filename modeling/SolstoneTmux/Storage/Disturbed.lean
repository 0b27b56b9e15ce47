import SolstoneTmux.Storage.Append
import Mathlib.Data.List.Infix

/-!
# Appends to files that others change

A session file may have been cut or extended since the last append. `appendFrame` compares its
length with the recorded offset, and where they differ it rolls the file back to that offset before
it gives up: a longer file is cut, a shorter one is filled up with zeros, and the next append finds
the length it expects.

* `recoverable_restores_iff` says when an append that was rolled back has left the directory as it
  was.
* `appends_intact_iff` says in which runs of appends each keeps what is below its offset and adds
  only its own bytes: those where every append finds at least that many.
-/

namespace SolstoneTmux

open Foundations Foundations.Prog

theorem length_resize (b : Bytes) (n : ℕ) : (resize b n).length = n := by
  rw [resize, List.length_append, List.length_take, List.length_replicate]
  omega

namespace FileStorage

/-- The open files are those of the segment directory, with whatever content. -/
def Linked (storage : FileStorage) (d : StreamDir) : Prop :=
  ∀ filename ∈ storage.handles, ∃ b,
    memberAt d storage.segmentDir (.str filename) = some (.file b)

/-- The content of a file of the segment; none where there is no such file. -/
def fileAt (storage : FileStorage) (filename : Str) (d : StreamDir) : Bytes :=
  match memberAt d storage.segmentDir (.str filename) with
  | some (.file b) => b
  | _ => []

section Rules

variable {ε : Type} {A : Turn → Prop} {storage : FileStorage} {d : StreamDir}
  {members : SegmentDir} {frame : AppendFrame} {filename : Str} {b : Bytes} {previous : Contents}

theorem fileAt_withFile (c : Bytes) :
    storage.fileAt filename (storage.withFile d members filename c) = c := by
  rw [fileAt, withFile, memberAt_of_members (segmentMembers_insert_self _ _ _),
    Table.get_insert_self]

theorem fileAt_insert_ne {name : OsName} (h : name ≠ storage.segmentDir)
    (node : Node Contents SegmentDir) :
    storage.fileAt filename (d.insert name node) = storage.fileAt filename d := by
  rw [fileAt, memberAt, segmentMembers_insert_ne h]
  rfl

theorem fileAt_opening (other : Str) :
    (storage.opening other).fileAt filename d = storage.fileAt filename d := by
  rw [fileAt, opening_segmentDir]
  rfl

theorem Ready.fileAt (h : Ready storage d filename members b previous) :
    storage.fileAt filename d = b := by
  rw [FileStorage.fileAt, memberAt_of_members h.segment]
  rcases h.member with hm | ⟨hm, rfl, -⟩
  · rw [hm]
  · rw [hm]

/-! ## Files that cannot be appended to -/

/-- An append that does not get to its file changes nothing. -/
theorem wp_appendFrame_unready {Q : Ended ε (FileStorage × Except StorageError SegmentMetadata) →
    StreamDir → Prop} (linked : storage.Linked d)
    (unready : ∀ members b previous, ¬ Ready storage d frame.filename members b previous)
    (herr : ∀ e, e.isPoisoned = false → Q (.done (storage, .error e)) d) (hkill : Q .killed d) :
    wp A (storage.appendFrame frame) Q d := by
  rw [appendFrame, readFile, wp_bind]
  refine wp_query ?_ (fun _ => herr _ rfl) fun _ => hkill
  split
  case h_2 => exact herr _ rfl
  case h_3 => exact herr _ rfl
  rename_i previous hprevious
  have hclosed : frame.filename ∉ storage.handles := by
    intro hopen
    obtain ⟨b, hb⟩ := linked _ hopen
    obtain ⟨members, hmembers, hm⟩ := Option.bind_eq_some_iff.mp hb
    refine unready members b previous ⟨hmembers, .inl hm, hprevious, fun heq => ?_⟩
    rw [segmentMembers_eq_some, heq, hprevious] at hmembers
    cases hmembers
  have hunopened : ∃ k, openedMember storage.segmentDir (.str frame.filename) d = (.error k, d) := by
    unfold openedMember
    split
    · exact ⟨_, rfl⟩
    rename_i members hmembers
    have hdistinct : storage.segmentDir ≠ storage.metadataPath := by
      intro heq
      rw [segmentMembers_eq_some, heq, hprevious] at hmembers
      cases hmembers
    split
    · rename_i hm
      exact absurd ⟨hmembers, .inr ⟨hm, rfl, hclosed⟩, hprevious, hdistinct⟩ (unready _ _ _)
    · rename_i b hm
      exact absurd ⟨hmembers, .inl hm, hprevious, hdistinct⟩ (unready _ _ _)
    · exact ⟨_, rfl⟩
  obtain ⟨k, hk⟩ := hunopened
  have hback (k : Except StorageError FileStorage →
      Prog StreamDir Turn ε (FileStorage × Except StorageError SegmentMetadata))
      (hk : ∀ error, k (.error error) = rolledBack storage frame error) (e : StorageError) :
      attempted (andThen A k Q) (.raised e) d := by
    rw [attempted_raised, andThen_done, hk]
    exact wp_rolledBack_closed hclosed (herr _ rfl)
  rw [andThen_done, wp_bind, wp_attempt, handle, if_neg hclosed, wp_bind]
  refine wp_call_atomic_error hk ?_ (fun _ => ?_) fun _ => hkill
  · rw [andThen_raised]
    exact hback _ (fun _ => rfl) _
  · rw [andThen_raised]
    exact hback _ (fun _ => rfl) _

/-! ## Files of another length -/

theorem wp_appendInner_mismatch {Q : Ended StorageError Unit → StreamDir → Prop}
    (hmembers : segmentMembers d storage.segmentDir = some members)
    (hfile : members[OsName.str frame.filename]? = some (.file b))
    (hlen : b.length ≠ frame.previousOffset) (hraise : ∀ e, Q (.raised e) d)
    (hkill : canKill A → Q .killed d) : wp A (storage.appendInner frame) Q d := by
  have hat : memberAt d storage.segmentDir (.str frame.filename) = some (.file b) := by
    rw [memberAt_of_members hmembers, hfile]
  rw [appendInner, wp_bind]
  refine wp_call_query (a := .file b) (by rw [hat]) ?_ (fun _ => hraise _) hkill
  rw [andThen_done, Node.memberLength, if_pos hlen]
  exact hraise _

/-- **What an append does to a file of another length.** It never works, and the rollback gives the
file the recorded length. -/
theorem wp_appendFrame_mismatch {Q : Ended ε (FileStorage × Except StorageError SegmentMetadata) →
    StreamDir → Prop} (ready : Ready storage d frame.filename members b previous)
    (hlen : b.length ≠ frame.previousOffset)
    (hback : ∀ e, Q (.done (storage.opening frame.filename, .error (.recoverable e)))
      (storage.withFile d members frame.filename (resize b frame.previousOffset)))
    (herr : canFail A → ∀ storage e d, Q (.done (storage, .error e)) d)
    (hkill : canKill A → ∀ d, Q .killed d) : wp A (storage.appendFrame frame) Q d := by
  have hopened : segmentMembers (storage.withFile d members frame.filename b)
      (storage.opening frame.filename).segmentDir =
        some (members.insert (.str frame.filename) (.file b)) := by
    rw [opening_segmentDir, withFile, segmentMembers_insert_self]
  have hcut (c : Bytes) : (storage.opening frame.filename).withFile
      (storage.withFile d members frame.filename b)
      (members.insert (.str frame.filename) (.file b)) frame.filename c =
        storage.withFile d members frame.filename c := by
    simp only [withFile, opening_segmentDir, Table.insert_insert]
  have hrolled (e : StorageError) : wp A (rolledBack (storage.opening frame.filename) frame e) Q
      (storage.withFile d members frame.filename b) := by
    refine wp_rolledBack_open (mem_opening_handles.mpr (.inl rfl)) hopened
      (Table.get_insert_self _ _ _) ?_ (fun hf _ _ _ _ => herr hf _ _ _) hkill
    rw [hcut]
    exact hback e
  rw [appendFrame, readFile, wp_bind]
  refine wp_query ?_ (fun hf => herr hf _ _ _) fun hk => hkill hk _
  rw [ready.metadata, andThen_done, wp_bind, wp_attempt]
  refine wp_handle ready ?_
    (fun hf hclosed e => wp_rolledBack_closed hclosed (herr hf _ _ _))
    (fun hf hclosed e => wp_rolledBack_closed hclosed (herr hf _ _ _))
    (fun hk => hkill hk _) fun hk => hkill hk _
  rw [attempted_done, andThen_done, wp_bind, wp_attempt]
  exact wp_appendInner_mismatch hopened (Table.get_insert_self _ _ _) hlen hrolled
    fun hk => hkill hk _

/-- An append to a file of another length, where every call works. -/
theorem run_appendFrame_mismatch (ready : Ready storage d frame.filename members b previous)
    (hlen : b.length ≠ frame.previousOffset) : ∃ e,
    run [] (storage.appendFrame frame : Prog _ _ ε _) d =
      (.done (storage.opening frame.filename, .error (.recoverable e)),
        storage.withFile d members frame.filename (resize b frame.previousOffset)) := by
  have hwp : wp allWork (storage.appendFrame frame : Prog _ _ ε _) (fun r d' => ∃ e,
      r = .done (storage.opening frame.filename, .error (.recoverable e)) ∧
        d' = storage.withFile d members frame.filename (resize b frame.previousOffset)) d :=
    wp_appendFrame_mismatch ready hlen (fun e => ⟨e, rfl, rfl⟩)
      (fun hf => absurd hf not_canFail_allWork) fun hk => absurd hk not_canKill_allWork
  obtain ⟨e, hr, hd⟩ := wp_run hwp rfl (List.forall_mem_nil _)
  exact ⟨e, Prod.ext hr hd⟩

/-! ## Rollbacks that leave no trace -/

/-- An append to a file that is not there, in a run where setting the permissions of the new file
fails. -/
theorem run_appendFrame_new (hmembers : segmentMembers d storage.segmentDir = some members)
    (hmember : members[OsName.str frame.filename]? = none)
    (hprevious : d[storage.metadataPath]? = some (.file previous))
    (hclosed : frame.filename ∉ storage.handles) : ∃ e,
    run [.ok, .ok, .fail 0] (storage.appendFrame frame : Prog _ _ ε _) d =
      (.done (storage, .error (.recoverable e)), storage.withFile d members frame.filename []) := by
  have hopen : openedMember storage.segmentDir (.str frame.filename) d =
      (.ok (), storage.withFile d members frame.filename []) := by
    rw [openedMember, hmembers]
    simp only [hmember, setMember_of_members hmembers, withFile]
  refine ⟨.io "set JSONL permissions" [storage.segmentDir, .str frame.filename] .other, ?_⟩
  simp [appendFrame, readFile, query, atomic, sys, Prog.bind, run, hprevious, handle, hclosed,
    attempt, call, openMember, hopen, barrier, rolledBack, rollback]

/-- **When a rollback leaves no trace.** The directory is as before after every append that is
rolled back, exactly where the file was there and had the recorded length, unless the append does
not get to it. -/
theorem recoverable_restores_iff (linked : storage.Linked d) :
    (∀ (ts : List Turn) storage' e d',
      run ts (storage.appendFrame frame : Prog _ _ Empty _) d =
        (.done (storage', .error (.recoverable e)), d') → d' = d) ↔
      ∀ members b previous, Ready storage d frame.filename members b previous →
        members[OsName.str frame.filename]? = some (.file b) ∧ b.length = frame.previousOffset := by
  constructor
  · intro h members b previous ready
    have hlen : b.length = frame.previousOffset := by
      by_contra hne
      obtain ⟨e, hrun⟩ := run_appendFrame_mismatch (ε := Empty) ready hne
      have hsame := congrArg (storage.fileAt frame.filename) (h _ _ _ _ hrun)
      rw [fileAt_withFile, ready.fileAt] at hsame
      refine hne ?_
      rw [← hsame, length_resize]
    refine ⟨?_, hlen⟩
    rcases ready.member with hm | ⟨hm, rfl, hclosed⟩
    · exact hm
    · obtain ⟨e, hrun⟩ := run_appendFrame_new (ε := Empty) ready.segment hm ready.metadata hclosed
      have hsame := h _ _ _ _ hrun
      have hfile := segmentMembers_insert_self d storage.segmentDir
        (members.insert (.str frame.filename) (.file []))
      rw [← withFile, hsame, ready.segment, Option.some.injEq] at hfile
      rw [hfile, Table.get_insert_self]
  · intro h ts storage' e d' hrun
    by_cases hready : ∃ members b previous, Ready storage d frame.filename members b previous
    · obtain ⟨members, b, previous, ready⟩ := hready
      obtain ⟨hm, hlen⟩ := h members b previous ready
      have hsame : storage.withFile d members frame.filename b = d := withFile_of_get ready.segment hm
      have hwp : wp anyTurn (storage.appendFrame frame : Prog _ _ Empty _) (fun r d' =>
          ∀ storage' e, r = .done (storage', .error (.recoverable e)) → d' = d) d := by
        refine wp_appendFrame_answers ready hlen (fun _ _ hr => by cases hr)
          (fun _ _ _ _ hr => by cases hr) (fun _ _ _ _ _ _ => rfl) (fun _ _ _ _ _ _ _ => hsame)
          (fun _ _ _ _ _ _ _ hr => by cases hr) (fun _ _ _ _ hr => by cases hr)
          (fun _ _ _ hr => by cases hr) (fun _ _ _ _ hr => by cases hr)
          fun _ _ _ hr => by cases hr
      exact wp_run_eq hrun hwp trivial (fun _ _ => trivial) _ _ rfl
    · have hwp : wp anyTurn (storage.appendFrame frame : Prog _ _ Empty _)
          (fun _ d' => d' = d) d :=
        wp_appendFrame_unready linked (fun m b p hr => hready ⟨m, b, p, hr⟩) (fun _ _ => rfl) rfl
      exact wp_run_eq hrun hwp trivial fun _ _ => trivial

/-! ## What an append keeps -/

/-- The bytes below an offset are kept, and none are added but those of a frame. -/
structure Extends (offset : ℕ) (b data c : Bytes) : Prop where
  below : c.take offset = b.take offset
  within : c <+: b ++ data

theorem Extends.refl (offset : ℕ) (b data : Bytes) : Extends offset b data b :=
  ⟨rfl, List.prefix_append b data⟩

theorem Extends.append_take {offset : ℕ} {b : Bytes} (h : offset ≤ b.length) (data : Bytes)
    (n : ℕ) : Extends offset b data (b ++ data.take n) where
  below := List.take_append_of_le_length h
  within := (List.prefix_append_right_inj b).mpr (List.take_prefix n data)

/-- A file that has the bytes below the offset is cut to them. -/
theorem Extends.resize {offset : ℕ} {b data c : Bytes} (h : Extends offset b data c)
    (hlen : offset ≤ b.length) : Extends offset b data (SolstoneTmux.resize c offset) := by
  have hcut : SolstoneTmux.resize c offset = c.take offset := by
    have hlength := congrArg List.length h.below
    rw [List.length_take, List.length_take] at hlength
    exact resize_of_le (by omega)
  rw [hcut]
  exact ⟨by rw [List.take_take, min_self, h.below], (List.take_prefix _ _).trans h.within⟩

section Keeps

variable {P : Bytes → Prop}

theorem keeps_rollback {offset : ℕ} (hcut : ∀ c, P c → P (SolstoneTmux.resize c offset))
    (h : P (storage.fileAt filename d)) :
    wp A (rollback storage filename offset) (fun _ d => P (storage.fileAt filename d)) d := by
  have hset : P (storage.fileAt filename
      (resizedMember storage.segmentDir (.str filename) offset d).2) := by
    unfold resizedMember
    split
    · rename_i b hb
      obtain ⟨members, hmembers, -⟩ := Option.bind_eq_some_iff.mp hb
      rw [fileAt, hb] at h
      rw [setMember_of_members hmembers, ← withFile, fileAt_withFile]
      exact hcut b h
    · exact h
    · exact h
  unfold rollback
  dsimp only
  split
  · rw [wp_bind, call, wp_bind]
    refine wp_atomic ?_ (fun _ => h) fun _ => h
    cases (resizedMember storage.segmentDir (.str filename) offset d).1 with
    | error k => exact hset
    | ok a => exact wp_call_barrier hset (fun _ => hset) fun _ => hset
  · exact h

theorem keeps_atomicWriteBytes {name : OsName} {content : Contents}
    (hne : name ≠ storage.segmentDir) (h : P (storage.fileAt filename d)) :
    wp A (atomicWriteBytes name content) (fun _ d => P (storage.fileAt filename d)) d := by
  have hnew : P (storage.fileAt filename (d.insert name (.file content))) := by
    rw [fileAt_insert_ne hne]
    exact h
  exact wp_atomicWriteBytes (fun _ => hnew) (fun _ _ => h) (fun _ _ _ => hnew) (fun _ => h)
    fun _ _ => hnew

theorem keeps_rolledBack {error : StorageError}
    (hcut : ∀ c, P c → P (SolstoneTmux.resize c frame.previousOffset))
    (h : P (storage.fileAt frame.filename d)) :
    wp A (rolledBack storage frame error : Prog _ _ ε _)
      (fun _ d => P (storage.fileAt frame.filename d)) d := by
  rw [rolledBack, wp_bind, wp_attempt]
  refine wp_mono (keeps_rollback hcut h) fun r d hd => ?_
  cases r <;> exact hd

theorem keeps_rolledBackBoth {error : StorageError}
    (hcut : ∀ c, P c → P (SolstoneTmux.resize c frame.previousOffset))
    (hne : storage.metadataPath ≠ storage.segmentDir) (h : P (storage.fileAt frame.filename d)) :
    wp A (rolledBackBoth storage frame previous error : Prog _ _ ε _)
      (fun _ d => P (storage.fileAt frame.filename d)) d := by
  have hsecond (k : Except StorageError Unit →
      Prog StreamDir Turn ε (FileStorage × Except StorageError SegmentMetadata))
      (hk : ∀ r d, P (storage.fileAt frame.filename d) →
        wp A (k r) (fun _ d => P (storage.fileAt frame.filename d)) d)
      (d : StreamDir) (hd : P (storage.fileAt frame.filename d)) :
      wp A ((atomicWriteBytes storage.metadataPath previous).attempt.bind k)
        (fun _ d => P (storage.fileAt frame.filename d)) d := by
    rw [wp_bind, wp_attempt]
    refine wp_mono (keeps_atomicWriteBytes hne hd) fun r d hd => ?_
    cases r with
    | killed => exact hd
    | done a => exact hk (.ok a) d hd
    | raised e => exact hk (.error e) d hd
  rw [rolledBackBoth, wp_bind, wp_attempt]
  refine wp_mono (keeps_rollback hcut h) fun r d hd => ?_
  cases r with
  | killed => exact hd
  | done a => exact hsecond _ (fun r d hd => by cases r <;> exact hd) d hd
  | raised e => exact hsecond _ (fun r d hd => by cases r <;> exact hd) d hd

end Keeps

/-- **What an append keeps.** However it ends, a file that has the bytes below the offset keeps
them, and gets no others than those of the frame. -/
theorem wp_appendFrame_extends (ready : Ready storage d frame.filename members b previous)
    (hlen : frame.previousOffset ≤ b.length) :
    wp A (storage.appendFrame frame : Prog _ _ ε _) (fun _ d =>
      Extends frame.previousOffset b frame.bytes (storage.fileAt frame.filename d)) d := by
  have hcut (c : Bytes) (h : Extends frame.previousOffset b frame.bytes c) := h.resize hlen
  have hold : Extends frame.previousOffset b frame.bytes (storage.fileAt frame.filename d) := by
    rw [ready.fileAt]
    exact .refl _ _ _
  have hpart (n : ℕ) : Extends frame.previousOffset b frame.bytes (storage.fileAt frame.filename
      (storage.withFile d members frame.filename (b ++ frame.bytes.take n))) := by
    rw [fileAt_withFile]
    exact .append_take hlen _ n
  have hopened : Extends frame.previousOffset b frame.bytes
      (storage.fileAt frame.filename (storage.withFile d members frame.filename b)) := by
    have := hpart 0
    rwa [List.take_zero, List.append_nil] at this
  have hrolled (d : StreamDir) (e : StorageError)
      (hd : Extends frame.previousOffset b frame.bytes (storage.fileAt frame.filename d)) :
      wp A (rolledBack (storage.opening frame.filename) frame e : Prog _ _ ε _) (fun _ d =>
        Extends frame.previousOffset b frame.bytes (storage.fileAt frame.filename d)) d := by
    rw [← fileAt_opening frame.filename] at hd
    simpa only [fileAt_opening] using keeps_rolledBack hcut hd
  have hsegment : segmentMembers (storage.withFile d members frame.filename b)
      (storage.opening frame.filename).segmentDir =
        some (members.insert (.str frame.filename) (.file b)) := by
    rw [opening_segmentDir, withFile, segmentMembers_insert_self]
  have htwice (c : Bytes) : (storage.opening frame.filename).withFile
      (storage.withFile d members frame.filename b)
      (members.insert (.str frame.filename) (.file b)) frame.filename c =
        storage.withFile d members frame.filename c := by
    simp only [withFile, opening_segmentDir, Table.insert_insert]
  rw [appendFrame, readFile, wp_bind]
  refine wp_query ?_ (fun _ => hold) fun _ => hold
  rw [ready.metadata, andThen_done, wp_bind, wp_attempt]
  refine wp_handle ready ?_ (fun _ hclosed _ => wp_rolledBack_closed hclosed hold)
    (fun _ hclosed _ => wp_rolledBack_closed hclosed hopened) (fun _ => hold) fun _ => hopened
  rw [attempted_done, andThen_done, wp_bind, wp_attempt]
  by_cases hsame : b.length = frame.previousOffset
  · refine wp_appendInner hsegment (Table.get_insert_self _ _ _) hsame ?_
      (fun n _ e => by rw [htwice]; exact hrolled _ e (hpart n))
      (fun n _ => by rw [htwice]; exact hpart n)
    have hall := hpart frame.bytes.length
    rw [List.take_length] at hall
    rw [htwice, attempted_done, andThen_done, wp_bind, wp_attempt, opening_metadataPath]
    refine wp_mono (keeps_atomicWriteBytes ready.distinct.symm hall) fun r d' hd => ?_
    cases r with
    | killed => exact hd
    | done a => exact hd
    | raised e =>
      have hne : (storage.opening frame.filename).metadataPath ≠
          (storage.opening frame.filename).segmentDir := by
        rw [opening_metadataPath, opening_segmentDir]
        exact ready.distinct.symm
      rw [← fileAt_opening frame.filename] at hd
      have hback : wp A (rolledBackBoth (storage.opening frame.filename) frame previous e :
          Prog _ _ ε _) _ d' := keeps_rolledBackBoth hcut hne hd
      simp only [fileAt_opening] at hback
      exact hback
  · exact wp_appendInner_mismatch hsegment (Table.get_insert_self _ _ _) hsame
      (fun e => hrolled _ e hopened) fun _ => hopened

end Rules

end FileStorage

/-! ## Runs of appends -/

open FileStorage

/-- A call of `append_frame` in a directory. -/
structure AppendCall where
  storage : FileStorage
  before : StreamDir
  frame : AppendFrame

namespace AppendCall

/-- The content of the file before the call. -/
def content (call : AppendCall) : Bytes := call.storage.fileAt call.frame.filename call.before

/-- A call keeps what is below the offset and adds only bytes of the frame; when it works, the file
had exactly the bytes below the offset and now has the frame after them. -/
structure Kept (call : AppendCall)
    (ended : Ended Empty (FileStorage × Except StorageError SegmentMetadata)) (after : StreamDir) :
    Prop where
  extends_ : Extends call.frame.previousOffset call.content call.frame.bytes
    (call.storage.fileAt call.frame.filename after)
  appended : ∀ storage m, ended = .done (storage, .ok m) →
    call.content.length = call.frame.previousOffset ∧
      call.storage.fileAt call.frame.filename after = call.content ++ call.frame.bytes

/-- The file survives the call, whichever stages of it fail. -/
def Intact (call : AppendCall) : Prop := ∀ ts : List Turn,
  let ended := run ts (call.storage.appendFrame call.frame : Prog _ _ Empty _) call.before
  call.Kept ended.1 ended.2

/-- The file that the call gets to has at least the bytes below the offset. -/
def Enough (call : AppendCall) : Prop := ∀ members b previous,
  Ready call.storage call.before call.frame.filename members b previous →
    call.frame.previousOffset ≤ b.length

/-- **When a file survives an append.** It does where it has the bytes below the offset. -/
theorem intact_iff {call : AppendCall} (linked : call.storage.Linked call.before) :
    call.Intact ↔ call.Enough := by
  constructor
  · intro h members b previous ready
    by_contra hshort
    have hshort' : b.length < call.frame.previousOffset := by omega
    obtain ⟨e, hrun⟩ := run_appendFrame_mismatch (ε := Empty) ready (by omega)
    have hbelow := (h []).extends_.below
    rw [hrun, fileAt_withFile, content, ready.fileAt] at hbelow
    have hlength := congrArg List.length hbelow
    rw [List.length_take, List.length_take, length_resize] at hlength
    omega
  · intro h ts
    by_cases hready : ∃ members b previous,
        Ready call.storage call.before call.frame.filename members b previous
    · obtain ⟨members, b, previous, ready⟩ := hready
      have hcontent : call.content = b := ready.fileAt
      have hextends := wp_run (wp_appendFrame_extends (ε := Empty) (A := anyTurn) ready
        (h members b previous ready)) trivial fun t (_ : t ∈ ts) => trivial
      have happended : wp anyTurn (call.storage.appendFrame call.frame : Prog _ _ Empty _)
          (fun r d => ∀ storage m, r = .done (storage, .ok m) →
            b.length = call.frame.previousOffset ∧
              call.storage.fileAt call.frame.filename d = b ++ call.frame.bytes) call.before := by
        by_cases hlen : b.length = call.frame.previousOffset
        · refine wp_appendFrame_answers ready hlen (fun _ _ _ => ⟨hlen, ?_⟩)
            (fun _ _ _ _ hr => by cases hr) (fun _ _ _ _ _ hr => by cases hr)
            (fun _ _ _ _ _ _ hr => by cases hr) (fun _ _ _ _ _ _ _ hr => by cases hr)
            (fun _ _ _ _ hr => by cases hr) (fun _ _ _ hr => by cases hr)
            (fun _ _ _ _ hr => by cases hr) fun _ _ _ hr => by cases hr
          rw [appended, fileAt_insert_ne ready.distinct.symm, fileAt_withFile]
        · exact wp_appendFrame_mismatch ready hlen (fun _ _ _ hr => by cases hr)
            (fun _ _ _ _ _ _ hr => by cases hr) fun _ _ _ _ hr => by cases hr
      rw [← hcontent] at hextends happended
      exact ⟨hextends, wp_run happended trivial fun _ _ => trivial⟩
    · have hwp : wp anyTurn (call.storage.appendFrame call.frame : Prog _ _ Empty _)
          (fun r d => d = call.before ∧ ∀ storage m, r ≠ .done (storage, .ok m)) call.before :=
        wp_appendFrame_unready linked (fun m b p hr => hready ⟨m, b, p, hr⟩)
          (fun _ _ => ⟨rfl, fun _ _ hr => by cases hr⟩) ⟨rfl, fun _ _ hr => by cases hr⟩
      obtain ⟨hsame, hnot⟩ := wp_run hwp trivial fun t (_ : t ∈ ts) => trivial
      refine ⟨?_, fun storage m hr => absurd hr (hnot storage m)⟩
      rw [hsame]
      exact .refl _ _ _

end AppendCall

/-- The calls of a storage in a row, and the storage after them. Between two calls others may change
anything but which files are open. -/
inductive Appends : List AppendCall → FileStorage → Prop
  | start (segmentDir metadataPath : OsName) : Appends [] ⟨segmentDir, metadataPath, []⟩
  | call {calls : List AppendCall} {storage storage' : FileStorage} {frame : AppendFrame}
      {ts : List Turn} {d d' : StreamDir} {answer : Except StorageError SegmentMetadata}
      (before : Appends calls storage) (linked : storage.Linked d)
      (run : run ts (storage.appendFrame frame : Prog _ _ Empty _) d =
        (.done (storage', answer), d')) : Appends (calls ++ [⟨storage, d, frame⟩]) storage'

theorem Appends.linked {calls : List AppendCall} {storage : FileStorage}
    (h : Appends calls storage) : ∀ call ∈ calls, call.storage.Linked call.before := by
  induction h with
  | start => exact fun _ h => absurd h List.not_mem_nil
  | call _ hlinked _ ih =>
    intro call hcall
    rcases List.mem_append.mp hcall with hold | hnew
    · exact ih call hold
    · rw [List.mem_singleton.mp hnew]
      exact hlinked

/-- **Which runs of appends keep their files.** In a run every file survives every append, whatever
fails in it, if and only if every append finds the bytes below its offset. -/
theorem appends_intact_iff {calls : List AppendCall} {storage : FileStorage}
    (h : Appends calls storage) :
    (∀ call ∈ calls, call.Intact) ↔ ∀ call ∈ calls, call.Enough :=
  forall₂_congr fun call hcall => AppendCall.intact_iff (h.linked call hcall)

/-! ## A file that was cut

Two bytes of activity are appended; then the file is cut to one, or extended to three. -/

/-- The metadata of a segment with this much activity. -/
def activityMetadata (offset : ℕ) : SegmentMetadata where
  schemaVersion := SegmentMetadata.SCHEMA_VERSION
  lifecycle := .opened
  incompleteDir := "120000.incomplete".toList
  finalizedDir := "120000_001".toList
  startWallUnixNanos := 0
  localOffsetSeconds := 0
  tz := none
  elapsedNanos := 1000000000
  lastDurableFrameId := 0
  durableFrameCount := 0
  hasDurableFrames := false
  activityDurableOffset := offset
  sessions := ∅

/-- An append of activity after this much of it. -/
def activityFrame (offset : ℕ) (bytes : Bytes) : AppendFrame where
  filename := "120000_desktop_activity.jsonl".toList
  previousOffset := offset
  bytes := bytes
  proposedMetadata := activityMetadata (offset + bytes.length)

/-- The directory of a segment with this much activity, and these files. -/
def activityDir (offset : ℕ) (members : SegmentDir) : StreamDir :=
  ((∅ : StreamDir).insert (.str "120000.incomplete.meta".toList)
    (.file (.metadata (activityMetadata offset)))).insert (.str "120000.incomplete".toList)
      (.directory members)

/-- The directory after the first append, with the file's content replaced. -/
def disturbedDir (b : Bytes) : StreamDir :=
  activityDir 2 ((∅ : SegmentDir).insert (.str "120000_desktop_activity.jsonl".toList) (.file b))

/-- The storage, with and without the file open. -/
def activityStorage (handles : List Str) : FileStorage where
  segmentDir := .str "120000.incomplete".toList
  metadataPath := .str "120000.incomplete.meta".toList
  handles := handles

/-- The first append, and the next one to a file with this content. -/
def disturbedCalls (b : Bytes) : List AppendCall :=
  [⟨activityStorage [], activityDir 0 ∅, activityFrame 0 [0x7b, newline]⟩,
    ⟨activityStorage ["120000_desktop_activity.jsonl".toList], disturbedDir b,
      activityFrame 2 [newline]⟩]

/-- The file is open and has this content. -/
theorem ready_disturbedDir (b : Bytes) :
    Ready (activityStorage ["120000_desktop_activity.jsonl".toList]) (disturbedDir b)
      "120000_desktop_activity.jsonl".toList
      ((∅ : SegmentDir).insert (.str "120000_desktop_activity.jsonl".toList) (.file b)) b
      (.metadata (activityMetadata 2)) where
  segment := segmentMembers_insert_self _ _ _
  member := .inl (Table.get_insert_self _ _ _)
  metadata := rfl
  distinct := by decide

theorem linked_disturbedDir (b : Bytes) :
    (activityStorage ["120000_desktop_activity.jsonl".toList]).Linked (disturbedDir b) := by
  intro filename h
  rw [List.mem_singleton.mp h]
  exact ⟨b, rfl⟩

theorem appends_disturbed {b : Bytes} (hlen : b.length ≠ 2) : Appends (disturbedCalls b)
    (activityStorage ["120000_desktop_activity.jsonl".toList]) := by
  have hfirst := (Appends.start (.str "120000.incomplete".toList)
    (.str "120000.incomplete.meta".toList)).call (fun _ h => absurd h List.not_mem_nil)
    (rfl : run [] ((activityStorage []).appendFrame (activityFrame 0 [0x7b, newline]))
      (activityDir 0 ∅) = (.done (_, .ok _), _))
  have hready : Ready _ _ (activityFrame 2 [newline]).filename _ _ _ := ready_disturbedDir b
  obtain ⟨_, hrun⟩ := run_appendFrame_mismatch hready hlen
  exact hfirst.call (linked_disturbedDir b) hrun

/-- The file was extended: both appends leave it intact. -/
theorem appends_intact_extended :
    Appends (disturbedCalls [0x7b, newline, 0x7b])
        (activityStorage ["120000_desktop_activity.jsonl".toList]) ∧
      ∀ call ∈ disturbedCalls [0x7b, newline, 0x7b], call.Intact := by
  have happends := appends_disturbed (b := [0x7b, newline, 0x7b]) (by decide)
  refine ⟨happends, ?_⟩
  have hlengths : ∀ call ∈ disturbedCalls [0x7b, newline, 0x7b],
      call.frame.previousOffset ≤ call.content.length := by decide
  refine (appends_intact_iff happends).mpr ?_
  intro call hcall members b previous ready
  have hlen := hlengths call hcall
  rwa [AppendCall.content, ready.fileAt] at hlen

/-- The file was cut: the next append fills it up with a zero, and the one after it follows that. -/
theorem cut_file_filled :
    Appends (disturbedCalls [0x7b]) (activityStorage ["120000_desktop_activity.jsonl".toList]) ∧
      (¬ ∀ call ∈ disturbedCalls [0x7b], call.Intact) ∧
      ∃ (storage : FileStorage) (e : StorageError) (d d' : StreamDir) (m : SegmentMetadata),
        run [] ((activityStorage ["120000_desktop_activity.jsonl".toList]).appendFrame
            (activityFrame 2 [newline]) : Prog _ _ Empty _) (disturbedDir [0x7b]) =
          (.done (storage, .error (.recoverable e)), d) ∧
        run [] (storage.appendFrame (activityFrame 2 [newline]) : Prog _ _ Empty _) d =
          (.done (storage, .ok m), d') ∧
        storage.fileAt "120000_desktop_activity.jsonl".toList d' = [0x7b, 0, newline] := by
  refine ⟨appends_disturbed (by decide), fun h => ?_, _, _, _, _, _, rfl, rfl, rfl⟩
  have hbelow := (h _ (List.mem_cons_of_mem _ List.mem_cons_self) []).extends_.below
  exact absurd hbelow (by decide)

end SolstoneTmux
