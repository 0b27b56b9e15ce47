import SolstoneTmux.Foundations.Maintain
import SolstoneTmux.Recovery.Keeps
import SolstoneTmux.Recovery.Recorded

/-!
# The names of a segment

`SegmentName stem` lists the names that the entries of a segment can have, under any length and any
number of attempts. Writing, closing and recovering a segment make no entry under another name
(`confined_create`, `confined_finalize`, `confined_recoverCandidate` and the lemmas before them),
whatever the directory holds and wherever the operation is stopped.
-/

namespace SolstoneTmux

open Foundations Foundations.Prog

/-! ## Names -/

/-- The names of the entries of the segment of a stem. -/
inductive SegmentName (stem : Str) : Str → Prop
  | incomplete : SegmentName stem (incompleteName stem)
  | incompleteMeta : SegmentName stem (incompleteMetaName stem)
  | finalized (length : ℕ) : SegmentName stem (finalizedName stem length)
  | zone (length : ℕ) : SegmentName stem (finalizedName stem length ++ ".zone.json".toList)
  | failed (number : ℕ) : SegmentName stem (failedName stem number)
  | failedMeta (number : ℕ) : SegmentName stem (failedMetaName stem number)

namespace SegmentName

variable {stem stem' name : Str}

theorem isPrefix (h : SegmentName stem name) : stem <+: name := by
  cases h with
  | incomplete => exact List.prefix_append _ _
  | incompleteMeta => exact List.prefix_append _ _
  | finalized length => exact List.prefix_append _ _
  | zone length => exact (List.prefix_append _ _).trans (List.prefix_append _ _)
  | failed number => exact (List.prefix_append _ _).trans (List.prefix_append _ _)
  | failedMeta number => exact (List.prefix_append _ _).trans (List.prefix_append _ _)

/-- Stems of one length share no name. -/
theorem stem_eq (h : SegmentName stem name) (h' : SegmentName stem' name)
    (hlength : stem.length = stem'.length) : stem = stem' :=
  (List.prefix_of_prefix_length_le h.isPrefix h'.isPrefix hlength.le).eq_of_length hlength

theorem candidateStem_eq_none {c : Char} (hname : name.getLast? = some c) (he : c ≠ 'e')
    (ha : c ≠ 'a') : candidateStem name = none := by
  have hinc : stripSuffix ".incomplete".toList name = none :=
    stripSuffix_eq_none.mpr fun t h =>
      str_ne hname (incompleteName_getLast? t) he (congrArg OsName.str h)
  have hmeta : stripSuffix ".incomplete.meta".toList name = none :=
    stripSuffix_eq_none.mpr fun t h =>
      str_ne hname (incompleteMetaName_getLast? t) ha (congrArg OsName.str h)
  rw [candidateStem, hinc, hmeta]

theorem candidateStem_failedMetaName (stem : Str) (number : ℕ) :
    candidateStem (failedMetaName stem number) = none := by
  have hinc : stripSuffix ".incomplete".toList (failedMetaName stem number) = none :=
    stripSuffix_eq_none.mpr fun t h =>
      str_ne (failedMetaName_getLast? stem number) (incompleteName_getLast? t) (by decide)
        (congrArg OsName.str h)
  have hmeta : stripSuffix ".incomplete.meta".toList (failedMetaName stem number) = none := by
    refine stripSuffix_eq_none.mpr fun t h => ?_
    -- Without `.meta` the one ends in `failed`, the other in `incomplete`.
    have h : failedName stem number ++ ".meta".toList = incompleteName t ++ ".meta".toList := by
      simpa [failedMetaName, failedName, incompleteName] using h
    exact str_ne (failedName_getLast? stem number) (incompleteName_getLast? t) (by decide)
      (congrArg OsName.str (List.append_cancel_right h))
  rw [candidateStem, hinc, hmeta]

/-- Recovery takes an entry of a segment for a candidate under the stem of that segment. -/
theorem candidateStem_eq (h : SegmentName stem name) {found : Str}
    (hfound : candidateStem name = some found) : found = stem := by
  cases h with
  | incomplete =>
    rw [candidateStem_incompleteName] at hfound
    exact (Option.some.inj hfound).symm
  | incompleteMeta =>
    rw [candidateStem_incompleteMetaName] at hfound
    exact (Option.some.inj hfound).symm
  | finalized length =>
    obtain ⟨c, hc, hdigit⟩ := finalizedName_getLast? stem length
    rw [candidateStem_eq_none hc (by rintro rfl; cases hdigit) (by rintro rfl; cases hdigit)]
      at hfound
    cases hfound
  | zone length =>
    rw [candidateStem_eq_none (zoneName_getLast? _) (by decide) (by decide)] at hfound
    cases hfound
  | failed number =>
    rw [candidateStem_eq_none (failedName_getLast? _ _) (by decide) (by decide)] at hfound
    cases hfound
  | failedMeta number =>
    rw [candidateStem_failedMetaName] at hfound
    cases hfound

end SegmentName

/-- An entry's name is one of the segment of a stem. -/
def OwnName (stem : Str) (name : OsName) : Prop := ∃ text, name = .str text ∧ SegmentName stem text

theorem SegmentName.own {stem name : Str} (h : SegmentName stem name) : OwnName stem (.str name) :=
  ⟨name, rfl, h⟩

/-! ## New entries -/

/-- Every entry was there before, or has a name of the segment of a stem. -/
def AddsOwn (stem : Str) (base d : StreamDir) : Prop :=
  ∀ name, d[name]?.isSome = true → base[name]?.isSome = true ∨ OwnName stem name

namespace AddsOwn

variable {stem : Str} {base d : StreamDir} {name : OsName}

theorem refl (stem : Str) (base : StreamDir) : AddsOwn stem base base := fun _ h => .inl h

theorem erase (h : AddsOwn stem base d) (name : OsName) : AddsOwn stem base (d.erase name) := by
  intro other hother
  rw [Table.get_erase] at hother
  split at hother
  · cases hother
  · exact h other hother

theorem insert (h : AddsOwn stem base d) (hname : d[name]?.isSome = true ∨ OwnName stem name)
    (node : Node Contents SegmentDir) : AddsOwn stem base (d.insert name node) := by
  intro other hother
  rw [Table.get_insert] at hother
  split at hother
  · rename_i heq
    subst heq
    exact hname.elim (h _) .inr
  · exact h other hother

/-- Replacing the members of a directory makes no entry. -/
theorem insert_members (h : AddsOwn stem base d) {members : SegmentDir}
    (hmembers : segmentMembers d name = some members) (node : Node Contents SegmentDir) :
    AddsOwn stem base (d.insert name node) :=
  h.insert (.inl (by rw [segmentMembers_eq_some.mp hmembers]; rfl)) node

theorem setMember (h : AddsOwn stem base d) (segment member : OsName) (node : Node Bytes ℕ) :
    AddsOwn stem base (SolstoneTmux.setMember d segment member node) := by
  unfold SolstoneTmux.setMember
  split
  · rename_i members hmembers
    exact h.insert_members hmembers _
  · exact h

end AddsOwn

/-! ## Calls -/

/-- A program makes no entry of a directory under a name that is not one of the segment of a stem. -/
abbrev Confined (stem : Str) (base : StreamDir) {ε α : Type} (p : Prog StreamDir Turn ε α) : Prop :=
  Maintains anyTurn (AddsOwn stem base) p

theorem addsOwn_of_run {stem : Str} {ε α : Type} {p : Prog StreamDir Turn ε α} {ts : List Turn}
    {r : Ended ε α} {d d' : StreamDir} (hp : Confined stem d p) (h : run ts p d = (r, d')) :
    AddsOwn stem d d' := by
  have hrun : AddsOwn stem d (run ts p d).2 :=
    hp.run trivial (fun _ _ => trivial) (AddsOwn.refl stem d)
  rwa [h] at hrun

section Calls

variable {ε α : Type} {stem : Str} {base : StreamDir} {err : IoKind → ε} {name : OsName}

theorem Foundations.Prog.Maintains.call {A : Turn → Prop} {I : StreamDir → Prop}
    {p : Prog StreamDir Turn ε (Except IoKind α)} (hp : Maintains A I p) :
    Maintains A I (SolstoneTmux.call err p) :=
  hp.bind fun _ => .orRaise _

theorem confined_renameEntry {source target : OsName} (h : OwnName stem target) :
    Confined stem base (renameEntry source target : Prog _ _ ε _) := by
  refine Maintains.atomic fun d hd => ?_
  rcases renamed_cases source target d with hr | ⟨node, -, -, -, hr⟩
  · rw [hr]
    exact hd
  · rw [hr]
    exact (hd.erase source).insert (.inr h) node

theorem confined_removeFile : Confined stem base (removeFile name : Prog _ _ ε _) := by
  refine Maintains.atomic fun d hd => ?_
  unfold unlinked
  split
  · exact hd
  · exact hd
  · exact hd.erase name

theorem confined_removeDir : Confined stem base (removeDir name : Prog _ _ ε _) := by
  refine Maintains.atomic fun d hd => ?_
  unfold withoutDir
  split
  · exact hd
  · split
    · exact hd.erase name
    · exact hd
  · exact hd

theorem confined_createDir (h : OwnName stem name) :
    Confined stem base (createDir name : Prog _ _ ε _) := by
  refine Maintains.atomic fun d hd => ?_
  split
  · exact hd.insert (.inr h) _
  · exact hd

theorem confined_openMember {segment member : OsName} :
    Confined stem base (openMember segment member : Prog _ _ ε _) := by
  refine Maintains.atomic fun d hd => ?_
  unfold openedMember
  split
  · exact hd
  · split
    · exact hd.setMember _ _ _
    · exact hd
    · exact hd

theorem confined_setLen {segment member : OsName} {length : ℕ} :
    Confined stem base (setLen segment member length : Prog _ _ ε _) := by
  refine Maintains.atomic fun d hd => ?_
  unfold resizedMember
  split
  · exact hd.setMember _ _ _
  · exact hd
  · exact hd

theorem confined_writeAll {segment member : OsName} {offset : ℕ} {data : Bytes} :
    Confined stem base (writeAll segment member offset data : Prog _ _ ε _) := by
  have hwritten : ∀ (data : Bytes) (d : StreamDir), AddsOwn stem base d →
      AddsOwn stem base (writtenTo segment member offset data d) := by
    intro data d hd
    unfold writtenTo
    split
    · exact hd.setMember _ _ _
    · exact hd
  exact Maintains.sys (hwritten data) fun n => hwritten (data.take n)

theorem confined_removeMember {segment member : OsName} :
    Confined stem base (removeMember segment member : Prog _ _ ε _) := by
  refine Maintains.atomic fun d hd => ?_
  unfold unlinkedMember
  split
  · exact hd
  · rename_i members hmembers
    split
    · exact hd
    · exact hd
    · exact hd.insert_members hmembers _

theorem confined_replaceFile {content : Contents} (h : OwnName stem name) :
    Confined stem base (replaceFile name content) := by
  refine Maintains.atomic fun d hd => ?_
  split
  · exact hd
  · exact hd.insert (.inr h) _

theorem confined_syncDirectory {path : RelPath} : Confined stem base (syncDirectory path) :=
  .call .barrier

theorem confined_atomicWriteBytes {content : Contents} (h : OwnName stem name) :
    Confined stem base (atomicWriteBytes name content) := by
  have hwrite : Confined stem base
      ((call (.io "write metadata" [name]) barrier).bind fun _ =>
        (call (.io "rename metadata" [name]) (replaceFile name content)).bind fun _ =>
        syncDirectory []) :=
    .bind (.call .barrier) fun _ => .bind (.call (confined_replaceFile h)) fun _ =>
      confined_syncDirectory
  refine .bind (.query _) fun r => ?_
  split
  · exact hwrite
  · exact hwrite
  · exact .raise _
  · exact .raise _

theorem confined_writeCaptureTime {length : ℕ} {t : CaptureTime} :
    Confined stem base (writeCaptureTime (finalizedName stem length) t) :=
  confined_atomicWriteBytes (SegmentName.zone length).own

end Calls

/-! ## Writing -/

/-- A segment state that works on the names of a stem. -/
structure SegmentState.Named (stem : Str) (seg : SegmentState) : Prop where
  incompleteDir : seg.incompleteDir = incompleteName stem
  metadataPath : seg.metadataPath = incompleteMetaName stem
  metadata : seg.metadata.incompleteDir = incompleteName stem
  storage : seg.storage.metadataPath = .str (incompleteMetaName stem)

/-- A storage that replaces the metadata file of a stem. -/
abbrev FileStorage.Named (stem : Str) (storage : FileStorage) : Prop :=
  storage.metadataPath = .str (incompleteMetaName stem)

theorem recordLength_finalizedDir {stem : Str} {m : SegmentMetadata}
    (h : m.incompleteDir = incompleteName stem) (elapsed interval : ℕ) :
    (recordLength m elapsed interval).finalizedDir =
      finalizedName stem (segmentLength elapsed interval * nanosPerSecond) := by
  rw [recordLength, h, segmentStem_incompleteName]

section Writing

variable {ε : Type} {stem : Str} {base d : StreamDir} {storage : FileStorage} {seg : SegmentState}

theorem confined_ensurePrivateDirectory {name : OsName} (h : OwnName stem name) :
    Confined stem base (SegmentState.ensurePrivateDirectory name) := by
  refine .bind (.query _) fun r => ?_
  split
  · exact .ite (.call .barrier) (.raise _)
  · exact .bind (.call (confined_createDir h)) fun _ => .call .barrier
  · exact .raise _

/-- **Creating a segment.** -/
theorem confined_create {startWall : OffsetDateTime} {startMonotonic : ℕ} {localOffset : UtcOffset}
    {tz : Option Str} {interval : ℕ} :
    Confined stem base
      (SegmentState.create stem startWall startMonotonic localOffset tz interval) := by
  have hmeta (m : SegmentMetadata) : Confined stem base
      ((atomicWriteMetadata (.str (incompleteMetaName stem)) m).rethrow SegmentError.storage) :=
    .rethrow (confined_atomicWriteBytes SegmentName.incompleteMeta.own)
  refine .bind (.call .barrier) fun _ => .bind (.glance _ _) fun _ => .ite (.raise _) ?_
  refine .bind (.glance _ _) fun _ => .ite (.raise _) ?_
  refine .bind (hmeta _) fun _ => ?_
  refine .bind (confined_ensurePrivateDirectory SegmentName.incomplete.own) fun _ => ?_
  exact .bind (.rethrow confined_syncDirectory) fun _ => .bind (hmeta _) fun _ => .done _

theorem confined_rollback {filename : Str} {offset : ℕ} :
    Confined stem base (storage.rollback filename offset) :=
  .ite (.bind (.call confined_setLen) fun _ => .call .barrier) (.done _)

theorem confined_appendInner {frame : AppendFrame} :
    Confined stem base (storage.appendInner frame) := by
  refine .bind (.call (.query _)) fun node => .ite (.raise _) ?_
  refine .bind (.call .barrier) fun _ => .bind (.call confined_writeAll) fun _ => ?_
  exact .bind (.call .barrier) fun _ => confined_syncDirectory

/-- The postcondition of an append to the storage of a stem. -/
def StorageEnds (stem : Str) (base : StreamDir) :
    Ended ε (FileStorage × Except StorageError SegmentMetadata) → StreamDir → Prop :=
  endsIn (AddsOwn stem base) fun r d => AddsOwn stem base d ∧ r.1.Named stem ∧
    ∀ m, r.2 = .ok m → m.incompleteDir = incompleteName stem

theorem storageEnds_rolledBack {frame : AppendFrame} {error : StorageError}
    (hs : storage.Named stem) (hd : AddsOwn stem base d) :
    wp anyTurn (FileStorage.rolledBack storage frame error) (StorageEnds (ε := ε) stem base) d := by
  refine endsIn_bind (Maintains.attempt confined_rollback d hd) fun r d' hd' => ?_
  cases r <;> exact ⟨hd', hs, by rintro m ⟨⟩⟩

theorem storageEnds_rolledBackBoth {frame : AppendFrame} {previous : Contents}
    {error : StorageError} (hs : storage.Named stem) (hd : AddsOwn stem base d) :
    wp anyTurn (FileStorage.rolledBackBoth storage frame previous error)
      (StorageEnds (ε := ε) stem base) d := by
  refine endsIn_bind (Maintains.attempt confined_rollback d hd) fun json d₁ h₁ => ?_
  have hwrite : Confined stem base (atomicWriteBytes storage.metadataPath previous) :=
    hs ▸ confined_atomicWriteBytes SegmentName.incompleteMeta.own
  refine endsIn_bind (Maintains.attempt hwrite d₁ h₁) fun metadata d₂ h₂ => ?_
  split <;> exact ⟨h₂, hs, by rintro m ⟨⟩⟩

theorem storageEnds_handle {filename : Str} (hs : storage.Named stem)
    (hd : AddsOwn stem base d) :
    wp anyTurn (storage.handle filename)
      (endsIn (AddsOwn stem base) fun storage d => AddsOwn stem base d ∧ storage.Named stem) d := by
  rw [FileStorage.handle]
  split
  · exact ⟨hd, hs⟩
  · refine endsIn_bind (Maintains.call confined_openMember d hd) fun _ d₁ h₁ => ?_
    refine endsIn_bind (Maintains.call Maintains.barrier d₁ h₁) fun _ d₂ h₂ => ?_
    refine endsIn_bind (Maintains.call (Maintains.query _) d₂ h₂) fun node d₃ h₃ => ?_
    split
    · exact ⟨h₃, hs⟩
    · exact h₃

theorem storageEnds_appendFrame {frame : AppendFrame} (hs : storage.Named stem)
    (hframe : frame.proposedMetadata.incompleteDir = incompleteName stem)
    (hd : AddsOwn stem base d) :
    wp anyTurn (storage.appendFrame frame) (StorageEnds (ε := ε) stem base) d := by
  refine endsIn_bind (Maintains.query _ d hd) fun r d₁ h₁ => ?_
  cases r with
  | error kind => exact ⟨h₁, hs, by rintro m ⟨⟩⟩
  | ok previous =>
    refine endsIn_bind (endsIn_attempt (storageEnds_handle hs h₁)) fun r d₂ h₂ => ?_
    cases r with
    | error error => exact storageEnds_rolledBack hs h₂
    | ok storage =>
      obtain ⟨h₂, hs⟩ := h₂
      refine endsIn_bind (Maintains.attempt confined_appendInner d₂ h₂) fun r d₃ h₃ => ?_
      cases r with
      | error error => exact storageEnds_rolledBack hs h₃
      | ok _ =>
        have hwrite : Confined stem base
            (atomicWriteMetadata storage.metadataPath frame.proposedMetadata) :=
          hs ▸ confined_atomicWriteBytes SegmentName.incompleteMeta.own
        refine endsIn_bind (Maintains.attempt hwrite d₃ h₃) fun r d₄ h₄ => ?_
        cases r with
        | error error => exact storageEnds_rolledBackBoth hs h₄
        | ok _ =>
          refine ⟨h₄, hs, ?_⟩
          rintro m ⟨⟩
          exact hframe

/-- The postcondition of an operation on the segment of a stem. -/
def SegmentEnds (stem : Str) (base : StreamDir) {α : Type} :
    Ended ε (SegmentState × α) → StreamDir → Prop :=
  endsIn (AddsOwn stem base) fun r d => AddsOwn stem base d ∧ r.1.Named stem

/-- **Appending a frame.** -/
theorem segmentEnds_appendCapture {hash : Str → UInt64} {capture : CaptureResult}
    {timestamp : F64Text} {now : ℕ} (hs : seg.Named stem) (hd : AddsOwn stem base d) :
    wp anyTurn (seg.appendCapture hash capture timestamp now) (SegmentEnds (ε := ε) stem base) d := by
  rw [SegmentState.appendCapture]
  split
  · exact ⟨hd, hs⟩
  split
  · exact ⟨hd, hs⟩
  dsimp only
  split
  · exact ⟨hd, hs⟩
  split
  · exact ⟨hd, hs⟩
  split
  · exact ⟨hd, hs⟩
  refine endsIn_bind (storageEnds_appendFrame hs.storage hs.metadata hd) fun r d₁ h₁ => ?_
  obtain ⟨h₁, hstorage, hm⟩ := h₁
  obtain ⟨storage, answer⟩ := r
  cases answer with
  | error e => exact ⟨h₁, hs.incompleteDir, hs.metadataPath, hs.metadata, hstorage⟩
  | ok m => exact ⟨h₁, hs.incompleteDir, hs.metadataPath, hm m rfl, hstorage⟩

/-- **Appending activity.** -/
theorem segmentEnds_appendActivity {bytes : Bytes} {now : ℕ} (hs : seg.Named stem)
    (hd : AddsOwn stem base d) :
    wp anyTurn (seg.appendActivity bytes now) (SegmentEnds (ε := ε) stem base) d := by
  rw [SegmentState.appendActivity]
  split
  · exact ⟨hd, hs⟩
  split
  · exact ⟨hd, hs⟩
  split
  · exact ⟨hd, hs⟩
  dsimp only
  split
  · exact ⟨hd, hs⟩
  refine endsIn_bind (storageEnds_appendFrame hs.storage hs.metadata hd) fun r d₁ h₁ => ?_
  obtain ⟨h₁, hstorage, hm⟩ := h₁
  obtain ⟨storage, answer⟩ := r
  cases answer with
  | error e => exact ⟨h₁, hs.incompleteDir, hs.metadataPath, hs.metadata, hstorage⟩
  | ok m => exact ⟨h₁, hs.incompleteDir, hs.metadataPath, hm m rfl, hstorage⟩

/-! ## Closing -/

theorem SegmentState.Named.withoutHandles (hs : seg.Named stem) : seg.withoutHandles.Named stem :=
  ⟨hs.incompleteDir, hs.metadataPath, hs.metadata, hs.storage⟩

theorem SegmentState.Named.finalizing (hs : seg.Named stem) (now : ℕ) :
    (seg.finalizing now).Named stem :=
  ⟨hs.incompleteDir, hs.metadataPath, hs.metadata, hs.storage⟩

theorem SegmentState.Named.closing (hs : seg.Named stem) (answer : Except SegmentError SegmentClose) :
    (seg.closing answer).1.Named stem := by
  cases answer with
  | ok close => exact ⟨hs.incompleteDir, hs.metadataPath, hs.metadata, hs.storage⟩
  | error e => exact hs

theorem confined_syncHandles : Confined stem base storage.syncHandles :=
  .forEach _ fun _ _ => .call .barrier

theorem confined_removeEmptySteps {listing : Listing} :
    Confined stem base (seg.removeEmptySteps listing) := by
  refine .bind (.rethrow confined_syncHandles) fun _ => ?_
  refine .bind (.call (.query _)) fun names => ?_
  refine .bind (.forEach _ fun name _ => ?_) fun _ => ?_
  · exact .bind (.call (.query _)) fun node => .ite (.raise _) (.call confined_removeMember)
  · refine .bind (.call confined_removeDir) fun _ => .bind (.rethrow confined_syncDirectory) fun _ => ?_
    refine .bind (.call confined_removeFile) fun _ => ?_
    exact .bind (.rethrow confined_syncDirectory) fun _ => .done _

theorem segmentEnds_removeConfirmedEmpty {listing : Listing} (hs : seg.Named stem)
    (hd : AddsOwn stem base d) :
    wp anyTurn (seg.removeConfirmedEmpty listing) (SegmentEnds (ε := ε) stem base) d := by
  rw [SegmentState.removeConfirmedEmpty]
  split
  · exact ⟨hd, hs⟩
  split
  · exact ⟨hd, hs⟩
  refine endsIn_bind (Maintains.attempt confined_removeEmptySteps d hd) fun answer d₁ h₁ => ?_
  exact ⟨h₁, hs.withoutHandles.closing answer⟩

theorem confined_finalizeSteps {length : ℕ}
    (hfin : seg.metadata.finalizedDir = finalizedName stem length) :
    Confined stem base seg.finalizeSteps := by
  refine .bind (.glance _ _) fun _ => .ite (.raise _) ?_
  refine .bind (.call (confined_renameEntry ?_)) fun _ => ?_
  · rw [hfin]
    exact (SegmentName.finalized length).own
  refine .bind (.rethrow confined_syncDirectory) fun _ => ?_
  refine .bind (.rethrow ?_) fun _ => ?_
  · rw [hfin]
    exact confined_writeCaptureTime
  · refine .bind (.call confined_removeFile) fun _ => ?_
    exact .bind (.rethrow confined_syncDirectory) fun _ => .done _

/-- **Finalizing a segment**, whatever its length is by then. -/
theorem segmentEnds_finalize {listing : Listing} {now : ℕ} (hs : seg.Named stem)
    (hd : AddsOwn stem base d) :
    wp anyTurn (seg.finalize listing now) (SegmentEnds (ε := ε) stem base) d := by
  rw [SegmentState.finalize]
  split
  · exact ⟨hd, hs⟩
  split
  · exact ⟨hd, hs⟩
  split
  · exact segmentEnds_removeConfirmedEmpty hs hd
  have hwrite : Confined stem base
      (atomicWriteMetadata (.str (seg.finalizing now).metadataPath) (seg.finalizing now).metadata) := by
    rw [(hs.finalizing now).metadataPath]
    exact confined_atomicWriteBytes SegmentName.incompleteMeta.own
  refine endsIn_bind (Maintains.attempt hwrite d hd) fun r d₁ h₁ => ?_
  cases r with
  | error e => exact ⟨h₁, hs.finalizing now⟩
  | ok _ =>
    refine endsIn_bind (Maintains.attempt (Maintains.rethrow confined_syncHandles) d₁ h₁) fun r d₂ h₂ => ?_
    cases r with
    | error e => exact ⟨h₂, (hs.finalizing now).withoutHandles⟩
    | ok _ =>
      have hsteps : Confined stem base (seg.finalizing now).withoutHandles.finalizeSteps :=
        confined_finalizeSteps (recordLength_finalizedDir hs.metadata _ _)
      refine endsIn_bind (Maintains.attempt hsteps d₂ h₂) fun answer d₃ h₃ => ?_
      exact ⟨h₃, (hs.finalizing now).withoutHandles.closing answer⟩

end Writing

/-! ## Recovering -/

section Recovering

variable {stem : Str} {base : StreamDir} {decoder : Decoder} {listing : Listing}
  {options : RecoveryOptions} {m : SegmentMetadata}

theorem updateSession_finalizedDir (m : SegmentMetadata) (session : Str) (offset lastId : ℕ) :
    (updateSession m session offset lastId).finalizedDir = m.finalizedDir := by
  unfold updateSession
  split <;> rfl

theorem validateSession_finalizedDir {members : SegmentDir} {session : SessionMetadata}
    {g g' : Gathered} (h : validateSession decoder members session g = .ok g') :
    g'.updated.finalizedDir = g.updated.finalizedDir := by
  unfold validateSession at h
  split at h
  · dsimp only at h
    split at h
    · cases h
    split at h
    · cases h
    split at h
    · cases h
    split at h
    · split at h
      · cases h
      cases h
      dsimp only
      split
      · exact updateSession_finalizedDir _ _ _ _
      · rfl
    · cases h
      dsimp only
      split
      · exact updateSession_finalizedDir _ _ _ _
      · rfl
  · cases h
  · cases h

theorem validateSessions_finalizedDir {members : SegmentDir} {sessions : List SessionMetadata}
    {g g' : Gathered} (h : validateSessions decoder members sessions g = .ok g') :
    g'.updated.finalizedDir = g.updated.finalizedDir := by
  induction sessions generalizing g with
  | nil =>
    cases h
    rfl
  | cons session sessions ih =>
    rw [validateSessions] at h
    split at h
    · cases h
    · rename_i g₁ hg₁
      rw [ih h, validateSession_finalizedDir hg₁]

theorem validateActivity_finalizedDir {members : SegmentDir} {g g' : Gathered}
    (h : validateActivity m stem members g = .ok g') :
    g'.updated.finalizedDir = g.updated.finalizedDir := by
  unfold validateActivity at h
  split at h
  · dsimp only at h
    split at h
    · cases h
    split at h <;> cases h <;> rfl
  · cases h
  · split at h
    · cases h
    · cases h
      rfl

/-- Repairs leave the name a segment is to have. -/
theorem validateFiles_finalizedDir {members : SegmentDir} {updated : SegmentMetadata}
    (h : (validateFiles decoder listing members m).updatedMetadata = some updated) :
    updated.finalizedDir = m.finalizedDir := by
  unfold validateFiles at h
  dsimp only at h
  split at h
  · cases h
  split at h
  · cases h
  rename_i g hg
  split at h
  · cases h
  rename_i g' hg'
  have hfin : g'.updated.finalizedDir = m.finalizedDir := by
    rw [validateActivity_finalizedDir hg', validateSessions_finalizedDir hg]
  unfold validateIds at h
  dsimp only at h
  split at h
  · cases h
  split at h
  · cases h
  split at h
  · cases h
    exact hfin
  · cases h
    exact hfin

theorem confined_recoverySync {path : RelPath} : Confined stem base (recoverySync path) :=
  .rethrow confined_syncDirectory

theorem confined_entryExists {name : OsName} : Confined stem base (entryExists name) := by
  refine .bind (.query _) fun r => ?_
  split
  · exact .done _
  · exact .done _
  · exact .raise _

theorem confined_rejectSpecialTarget {name : OsName} {isMeta : Bool} :
    Confined stem base (rejectSpecialTarget name isMeta) := by
  refine .bind (.query _) fun r => ?_
  split
  · exact .ite (.done _) (.raise _)
  · exact .done _
  · exact .raise _

theorem confined_readMembers {operation : String} {segment : OsName} :
    Confined stem base (readMembers operation segment) :=
  .call (.query _)

/-- Quarantine also takes the name of an open segment, when its metadata cannot follow. -/
theorem confined_quarantine {detail : String} : Confined stem base (quarantine stem detail) := by
  refine .bind (.call (.query _)) fun number => ?_
  refine .bind confined_entryExists fun sourceExists => ?_
  refine .bind confined_entryExists fun metadataExists => ?_
  refine .bind (.ite (.call (confined_renameEntry (SegmentName.failed number).own)) (.done _))
    fun _ => ?_
  refine .bind (.ite ?_ (.done _)) fun _ => .bind confined_recoverySync fun _ => .done _
  refine .bind (confined_renameEntry (SegmentName.failedMeta number).own) fun r => ?_
  split
  · exact .done _
  · exact .bind (.ite (confined_renameEntry SegmentName.incomplete.own) (.done _))
      fun _ => .raise _

theorem confined_finishRecovered {length : ℕ} {repaired : Bool}
    (hfin : m.finalizedDir = finalizedName stem length) :
    Confined stem base (finishRecovered stem options m repaired) := by
  refine .bind (.ite (.raise _) confined_recoverySync) fun _ => ?_
  refine .bind (.rethrow (hfin ▸ confined_writeCaptureTime)) fun _ => ?_
  refine .bind (.call confined_removeFile) fun _ => .bind confined_recoverySync fun _ => ?_
  exact .ite (.done _) (.done _)

theorem confined_finalizeRecovered {length : ℕ} {original : Contents} {repaired : Bool}
    (hfin : m.finalizedDir = finalizedName stem length) :
    Confined stem base
      (finalizeRecovered stem options (finalizedName stem length) original m repaired) := by
  have hmeta (content : Contents) : Confined stem base
      ((atomicWriteBytes (.str (incompleteMetaName stem)) content).rethrow RecoveryError.storage) :=
    .rethrow (confined_atomicWriteBytes SegmentName.incompleteMeta.own)
  refine .bind (hmeta _) fun _ => ?_
  refine .bind (confined_renameEntry (SegmentName.finalized length).own) fun r => ?_
  split
  · exact .bind (hmeta _) fun _ => .done _
  · exact confined_finishRecovered hfin

theorem confined_applyRepairs {source : OsName} {repairs : List FileRepair} :
    Confined stem base (applyRepairs source options repairs) :=
  .forEach _ fun _ _ => .bind (.call confined_setLen) fun _ => .ite (.raise _) (.call .barrier)

theorem confined_validateAndFinalize {length : ℕ} {original : Contents}
    (hfin : m.finalizedDir = finalizedName stem length) :
    Confined stem base (validateAndFinalize decoder listing stem options original m) := by
  have hvalidation : ∀ d, AddsOwn stem base d →
      wp anyTurn (validateDirectory decoder listing (.str (incompleteName stem)) m)
        (endsIn (AddsOwn stem base) fun validation d => AddsOwn stem base d ∧
          ∀ updated, validation.updatedMetadata = some updated →
            updated.finalizedDir = m.finalizedDir) d := by
    intro d hd
    refine endsIn_bind (confined_readMembers d hd) fun members d₁ h₁ => ?_
    exact ⟨h₁, fun updated => validateFiles_finalizedDir⟩
  intro d hd
  refine endsIn_bind (hvalidation d hd) fun validation d₁ h₁ => ?_
  obtain ⟨h₁, hupdated⟩ := h₁
  rw [hfin]
  split
  · exact confined_quarantine d₁ h₁
  · exact confined_finalizeRecovered hfin d₁ h₁
  · have hfin' : (validation.updatedMetadata.getD m).finalizedDir = finalizedName stem length := by
      cases hm : validation.updatedMetadata with
      | none => exact hfin
      | some updated => exact (hupdated updated hm).trans hfin
    exact endsIn_bind (confined_applyRepairs d₁ h₁)
      fun _ d₂ h₂ => confined_finalizeRecovered hfin' d₂ h₂

theorem confined_truncateUncommittedActivityWriter {source : OsName} :
    Confined stem base (truncateUncommittedActivityWriter source stem) := by
  refine .bind (.query _) fun r => ?_
  split
  · refine .ite (.done _) (.bind (.call confined_setLen) fun _ => ?_)
    exact .bind (.call .barrier) fun _ => confined_recoverySync
  · exact .done _
  · exact .raise _

theorem confined_removeConfirmedEmptySource :
    Confined stem base (removeConfirmedEmptySource listing stem) := by
  refine .bind (.bind confined_readMembers fun members => .done _) fun validated => ?_
  split
  · exact confined_quarantine
  · refine .bind (.bind confined_readMembers fun members => .ite (.done _) ?_) fun removed => ?_
    · exact .bind (.forEach _ fun _ _ => .call confined_removeMember) fun _ => .done _
    · refine .ite (.done _) (.bind (.call confined_removeDir) fun _ => ?_)
      refine .bind (.call confined_removeFile) fun _ => ?_
      exact .bind confined_recoverySync fun _ => .done _

theorem confined_recoverSource {length : ℕ} {original : Contents}
    (hfin : m.finalizedDir = finalizedName stem length) :
    Confined stem base (recoverSource decoder listing stem options original m) := by
  have hfinalize : Confined stem base
      (validateAndFinalize decoder listing stem options original m) :=
    confined_validateAndFinalize hfin
  refine .bind confined_entryExists fun collision => .ite (.done _) (.ite (.done _) ?_)
  refine .ite (.bind confined_truncateUncommittedActivityWriter fun _ => ?_) hfinalize
  refine .bind (.bind confined_readMembers fun members => .glance _ _) fun idActivity => ?_
  exact .ite hfinalize confined_removeConfirmedEmptySource

theorem confined_recoverOrphan {length : ℕ} (hfin : m.finalizedDir = finalizedName stem length) :
    Confined stem base (recoverOrphan decoder listing stem m) := by
  refine .ite (.bind (.call confined_removeFile) fun _ =>
    .bind confined_recoverySync fun _ => .done _) ?_
  refine .bind (.query _) fun entry => ?_
  split
  · exact .raise _
  · refine .bind (.bind confined_readMembers fun members => .done _) fun validation => ?_
    refine .ite (.bind (.rethrow (hfin ▸ confined_writeCaptureTime)) fun _ => ?_) (.done _)
    exact .bind (.call confined_removeFile) fun _ => .bind confined_recoverySync fun _ => .done _
  · exact .done _

/-- **Recovering a candidate.** -/
theorem confined_recoverCandidate {segmentInterval : ℕ} :
    Confined stem base (recoverCandidate decoder listing stem options segmentInterval) := by
  refine .bind confined_rejectSpecialTarget fun _ => ?_
  refine .bind confined_rejectSpecialTarget fun _ => .ite confined_quarantine ?_
  refine .bind (.query _) fun r => ?_
  split
  · exact .raise _
  · exact .bind (.glance _ _) fun _ => .bind (.call (.query _)) fun _ => .done _
  · refine .bind (.glance _ _) fun sourceExists => ?_
    split
    · exact confined_quarantine
    · rename_i m hm
      have hm := consistent_of_metadataIsConsistent (Option.filter_eq_some_iff.mp hm).2
      exact .ite (confined_recoverSource (recordLength_finalizedDir hm.incompleteDir _ _))
        (confined_recoverOrphan hm.finalizedDir)

end Recovering

end SolstoneTmux
