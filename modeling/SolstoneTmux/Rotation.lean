import SolstoneTmux.KilledAppends
import SolstoneTmux.Recovery.Remnant

/-!
# A segment under its process

`Attends` relates a segment in memory to its stream directory between two operations: it is being
written, or closing it has failed at one of the stages, or it is closed. Whatever call of a creation
or of a finalization fails or is the process's last, what is left is a `Remnant` of the segment's log, and
a finalization that fails leaves a segment that is attended again (`wp_create_attends`,
`Attends.finalize`).
-/

namespace SolstoneTmux

open Foundations Foundations.Prog SegmentLog

/-! ## Lengths -/

/-- The length of a segment that is due is the interval. -/
theorem segmentLength_of_due {elapsed interval : ℕ} (h : interval ≤ elapsed) :
    segmentLength elapsed interval = max (asSecs interval) 1 := by
  have hle : asSecs interval ≤ asSecs elapsed := Nat.div_le_div_right h
  rw [segmentLength]
  omega

/-- Metadata that was given a length records it, as long as the interval fits its field. -/
theorem recorded_of_interval {stem : Str} {m : SegmentMetadata} {elapsed interval : ℕ}
    (h : LengthOf stem m (segmentLength elapsed interval * nanosPerSecond))
    (hinterval : interval < 2 ^ 64) : m.finalizedDir = finalizedName stem m.elapsedNanos := by
  refine h.recorded ?_
  have hle : segmentLength elapsed interval ≤ segmentLength interval interval := by
    rw [segmentLength, segmentLength]
    omega
  exact (Nat.mul_le_mul_right _ hle).trans (segmentLength_le hinterval interval)

/-! ## What is left of a segment -/

/-- What an operation of the segment of a stem may leave behind: a stage of the segment, and the
entries of all others. -/
structure Leaves (decoder : Decoder) (stem : Str) (interval : ℕ) (log : SegmentLog)
    (base d : StreamDir) : Prop where
  remnant : Remnant decoder stem interval log d
  apart : Apart stem base d

/-- The segment's directory has its final name. The metadata is removed after the zone record was
written. -/
structure Renamed (stem : Str) (m : SegmentMetadata) (members : SegmentDir) (d : StreamDir) : Prop where
  source : d[OsName.str (incompleteName stem)]? = none
  segment : d[OsName.str m.finalizedDir]? = some (.directory members)
  metaFile : d[OsName.str (incompleteMetaName stem)]? = some (.file (.metadata m)) ∨
    d[OsName.str (incompleteMetaName stem)]? = none ∧
      ∃ t, d[captureTimePath m.finalizedDir]? = some (.file (.captureTime t))
  plain : PlainTarget d (captureTimePath m.finalizedDir)
  within : NamesWithin stem [m.finalizedDir, m.finalizedDir ++ ".zone.json".toList,
    incompleteMetaName stem] d

/-- A segment in memory and its stream directory, while appends go to the segment. -/
inductive Serving (decoder : Decoder) (stem : Str) (interval : ℕ) (log : SegmentLog)
    (d : StreamDir) (seg : SegmentState) : Prop
  /-- What was appended is recorded. -/
  | writing {members : SegmentDir} (length : seg.segmentInterval = interval)
      (records : Records decoder stem d seg log members)
      (recorded : seg.metadata.finalizedDir = finalizedName stem seg.metadata.elapsedNanos)
      (within : NamesWithin stem [incompleteName stem, incompleteMetaName stem] d)
  /-- It is closed, and the next segment could not be opened. -/
  | closed (isClosed : seg.closed ≠ none)

/-- A segment in memory and its stream directory, at a time between two polls. Where closing it
failed, it is due, so that the next poll closes it again. -/
inductive Attends (decoder : Decoder) (stem : Str) (interval now : ℕ) (log : SegmentLog)
    (d : StreamDir) (seg : SegmentState) : Prop
  | serving (serving : Serving decoder stem interval log d seg)
  /-- A finalization failed before its rename. The disk may have the metadata from before it. -/
  | ending {m : SegmentMetadata} {members : SegmentDir} (length : seg.segmentInterval = interval)
      (due : seg.rotationDue now interval = true) (nonempty : log ≠ .empty)
      (closable : Closable stem d seg log members) (disk : OnDisk decoder stem log m members d)
      (holds : HoldsLog log stem members)
      (within : NamesWithin stem [incompleteName stem, incompleteMetaName stem] d)
  /-- A finalization failed after its rename. The final metadata may be removed already. -/
  | stuck {members : SegmentDir} {elapsed : ℕ} (due : seg.rotationDue now interval = true)
      (nonempty : log ≠ .empty) (wellFormed : log.WellFormed decoder)
      (metadata : MetadataOf log stem seg.metadata)
      (recorded : seg.metadata.finalizedDir = finalizedName stem seg.metadata.elapsedNanos)
      (name : seg.metadata.finalizedDir = closedName stem interval elapsed)
      (holds : HoldsLog log stem members) (renamed : Renamed stem seg.metadata members d)
      (final : ∀ later, now ≤ later → (seg.finalizing later).metadata = seg.metadata)
      (incompleteDir : seg.incompleteDir = incompleteName stem)
      (metadataPath : seg.metadataPath = incompleteMetaName stem)
      (sound : seg.poisoned = false) (isOpen : seg.closed = none)
  /-- The removal of an empty segment failed after its directory was gone. -/
  | removing (due : seg.rotationDue now interval = true) (empty : log = .empty)
      (metadata : MetadataOf .empty stem seg.metadata)
      (source : d[OsName.str (incompleteName stem)]? = none)
      (incompleteDir : seg.incompleteDir = incompleteName stem)
      (sound : seg.poisoned = false) (isOpen : seg.closed = none)

/-! ## Entries that are not the segment's -/

section Same

variable {decoder : Decoder} {stem : Str} {interval now : ℕ} {log : SegmentLog} {d d' : StreamDir}
  {seg : SegmentState} {members : SegmentDir}

/-- The entries of the segment of a stem are the same. -/
def SameOwn (stem : Str) (d d' : StreamDir) : Prop :=
  ∀ name, OwnName stem name → d'[name]? = d[name]?

theorem SameOwn.get (hsame : SameOwn stem d d') {name : Str} (hname : SegmentName stem name) :
    d'[OsName.str name]? = d[OsName.str name]? :=
  hsame _ hname.own

theorem SameOwn.undisturbed (hsame : SameOwn stem d d') : Undisturbed stem d d' :=
  .of_get fun _ hname => hsame.get hname

theorem Records.same (h : Records decoder stem d seg log members) (hsame : SameOwn stem d d') :
    Records decoder stem d' seg log members :=
  { h with
    segment := by
      rw [segmentMembers_eq_some, hsame.get .incomplete, ← segmentMembers_eq_some, h.segment]
    onDisk := (hsame.get .incompleteMeta).trans h.onDisk }

theorem Closable.same (h : Closable stem d seg log members) (hsame : SameOwn stem d d') :
    Closable stem d' seg log members :=
  { h with
    segment := by
      rw [segmentMembers_eq_some, hsame.get .incomplete, ← segmentMembers_eq_some, h.segment]
    metaFile := h.metaFile.imp fun _ => (hsame.get .incompleteMeta).trans }

theorem OnDisk.same {m : SegmentMetadata} (h : OnDisk decoder stem log m members d)
    (hsame : SameOwn stem d d') : OnDisk decoder stem log m members d' :=
  { h with
    source := (hsame.get .incomplete).trans h.source
    metaFile := (hsame.get .incompleteMeta).trans h.metaFile }

theorem Renamed.same {m : SegmentMetadata} (h : Renamed stem m members d)
    (hrecorded : m.finalizedDir = finalizedName stem m.elapsedNanos) (hsame : SameOwn stem d d') :
    Renamed stem m members d' := by
  have hzone : d'[captureTimePath m.finalizedDir]? = d[captureTimePath m.finalizedDir]? := by
    rw [captureTimePath, hrecorded]
    exact hsame.get (.zone _)
  have hmeta := hsame.get .incompleteMeta
  refine ⟨(hsame.get .incomplete).trans h.source, ?_, ?_, ?_, hsame.undisturbed.within h.within⟩
  · rw [hrecorded, hsame.get (.finalized _), ← hrecorded, h.segment]
  · rw [hmeta, hzone]
    exact h.metaFile
  · intro node hnode
    exact h.plain node (hzone.symm.trans hnode)

theorem Serving.same (h : Serving decoder stem interval log d seg) (hsame : SameOwn stem d d') :
    Serving decoder stem interval log d' seg := by
  cases h with
  | writing length records recorded within =>
    exact .writing length (records.same hsame) recorded (hsame.undisturbed.within within)
  | closed isClosed => exact .closed isClosed

/-- A segment is attended whatever happens to the entries that are not its own. -/
theorem Attends.same (h : Attends decoder stem interval now log d seg) (hsame : SameOwn stem d d') :
    Attends decoder stem interval now log d' seg := by
  cases h with
  | serving serving => exact .serving (serving.same hsame)
  | ending length due nonempty closable disk holds within =>
    exact .ending length due nonempty (closable.same hsame) (disk.same hsame) holds
      (hsame.undisturbed.within within)
  | stuck due nonempty wellFormed metadata recorded name holds renamed final incompleteDir
      metadataPath sound isOpen =>
    exact .stuck due nonempty wellFormed metadata recorded name holds (renamed.same recorded hsame)
      final incompleteDir metadataPath sound isOpen
  | removing due empty metadata source incompleteDir sound isOpen =>
    exact .removing due empty metadata ((hsame.get .incomplete).trans source) incompleteDir sound
      isOpen

end Same

section Create

variable {decoder : Decoder} {stem : Str} {interval : ℕ} {d : StreamDir} {startWall : OffsetDateTime}
  {startMonotonic : ℕ} {localOffset : UtcOffset} {tz : Option Str}

/-- Metadata without frames, activity and sessions is consistent under every lifecycle. -/
theorem metadataIsConsistent_of_opened {m : SegmentMetadata}
    (h : metadataIsConsistent { m with lifecycle := .opened } stem = true)
    (hcount : m.durableFrameCount = 0) (hactivity : m.activityDurableOffset = 0)
    (hsessions : m.sessions = ∅) : metadataIsConsistent m stem = true := by
  simp only [metadataIsConsistent, hcount, hactivity, hsessions, Bool.and_eq_true] at h ⊢
  simpa using h

/-- The metadata that a creation starts with is consistent. -/
theorem consistent_initial (hstem : validTimeName stem = true) :
    metadataIsConsistent (SegmentState.initialMetadata stem startWall localOffset tz interval) stem =
      true := by
  refine metadataIsConsistent_of_opened ?_ rfl rfl rfl
  have hlog : SegmentLog.empty.WellFormed .ofEnvelopes := wellFormed_empty
  exact metadataIsConsistent_of_log hstem hlog
    (metadataOf_opened stem startWall localOffset tz interval)
    ((lengthOf_opened stem startWall localOffset tz interval).recorded
      (segmentLength_le (by norm_num) interval))

/-- An atomic replacement, where the calling program may stop with the old and with the new content. -/
theorem endsIn_atomicWriteBytes {A : Turn → Prop} {name : OsName} {content : Contents}
    {I : StreamDir → Prop} {P : Unit → StreamDir → Prop} (hold : I d)
    (hnew : I (d.insert name (.file content))) (hok : P () (d.insert name (.file content))) :
    wp A (atomicWriteBytes name content) (endsIn I P) d :=
  wp_atomicWriteBytes (fun _ => hok) (fun _ _ => hold) (fun _ _ _ => hnew) (fun _ => hold)
    fun _ _ => hnew

/-- The four states in which a creation under free names can stop, whichever call fails. -/
theorem endsIn_create {A : Turn → Prop} {I : StreamDir → Prop} {P : SegmentState → StreamDir → Prop}
    {creating opened : SegmentMetadata} {d₁ d₂ d₃ : StreamDir} (hfree : NamesFree d stem)
    (hcreating : creating = SegmentState.initialMetadata stem startWall localOffset tz interval)
    (hopened : opened = openedMetadata stem startWall localOffset tz interval)
    (h₁ : d₁ = createdMeta stem creating d) (h₂ : d₂ = createdDir stem d₁)
    (h₃ : d₃ = createdMeta stem opened d₂) (hI : I d) (hI₁ : I d₁) (hI₂ : I d₂) (hI₃ : I d₃)
    (hok : P (SegmentState.initial stem opened startMonotonic interval) d₃) :
    wp A (SegmentState.create stem startWall startMonotonic localOffset tz interval)
      (endsIn I P) d := by
  subst hcreating hopened h₁ h₂ h₃
  have hseen {name : OsName} {p q : Prog StreamDir Turn SegmentError SegmentState}
      (hnone : d[name]? = none) (hq : wp A q (endsIn I P) d) :
      wp A ((entryVisible name).bind fun seen => if seen then p else q) (endsIn I P) d := by
    rw [wp_bind, entryVisible]
    refine wp_glance ?_ (fun _ => ?_) fun _ => hI
    · simpa [hnone] using hq
    · simpa using hq
  have hnodir : (createdMeta stem
      (SegmentState.initialMetadata stem startWall localOffset tz interval) d)[
        OsName.str (incompleteName stem)]? = none := by
    rw [createdMeta, Table.get_insert_ne (incomplete_ne_meta _ _).symm, hfree.1]
  have hdirectory : wp A (SegmentState.ensurePrivateDirectory (.str (incompleteName stem)))
      (endsIn I fun _ s => s = createdDir stem (createdMeta stem
        (SegmentState.initialMetadata stem startWall localOffset tz interval) d))
      (createdMeta stem (SegmentState.initialMetadata stem startWall localOffset tz interval) d) := by
    rw [SegmentState.ensurePrivateDirectory, symlinkMetadata, wp_bind]
    refine wp_query ?_ (fun _ => hI₁) fun _ => hI₁
    rw [hnodir, andThen_done, wp_bind, createDir]
    refine wp_call_atomic (by rw [hnodir]) ?_ (fun _ => hI₁) fun _ => hI₁
    rw [andThen_done]
    exact endsIn_call_barrier hI₂ rfl
  rw [SegmentState.create]
  refine endsIn_bind (endsIn_call_barrier hI (P := fun _ s => s = d) rfl) ?_
  rintro - s rfl
  refine hseen hfree.1 (hseen hfree.2 ?_)
  refine endsIn_bind (endsIn_rethrow (endsIn_atomicWriteBytes hI hI₁
    (P := fun _ s' => s' = createdMeta stem _ s) rfl)) ?_
  rintro - _ rfl
  refine endsIn_bind hdirectory ?_
  rintro - _ rfl
  refine endsIn_bind (endsIn_rethrow (endsIn_call_barrier hI₂ (P := fun _ s' => s' = createdDir stem _)
    rfl)) ?_
  rintro - _ rfl
  exact endsIn_bind (endsIn_rethrow (endsIn_atomicWriteBytes hI₂ hI₃
    (P := fun _ s' => s' = createdMeta stem _ _) rfl)) fun _ _ h => h ▸ hok

/-- **A creation under free names leaves an empty segment**, whichever of its calls fails or is the
last. -/
theorem wp_create_attends {A : Turn → Prop} (hstem : validTimeName stem = true)
    (hnone : NamesWithin stem [] d) :
    wp A (SegmentState.create stem startWall startMonotonic localOffset tz interval)
      (endsIn (Leaves decoder stem interval .empty d) fun seg d' =>
        Leaves decoder stem interval .empty d d' ∧
          Serving decoder stem interval .empty d' seg) d := by
  have hfree : NamesFree d stem :=
    ⟨hnone.get_none .incomplete List.not_mem_nil, hnone.get_none .incompleteMeta List.not_mem_nil⟩
  generalize hcreating : SegmentState.initialMetadata stem startWall localOffset tz interval = creating
  generalize hopened : openedMetadata stem startWall localOffset tz interval = opened
  generalize h₁ : createdMeta stem creating d = d₁
  generalize h₂ : createdDir stem d₁ = d₂
  generalize h₃ : createdMeta stem opened d₂ = d₃
  have hrecorded : opened.finalizedDir = finalizedName stem opened.elapsedNanos := by
    rw [← hopened]
    exact (lengthOf_opened stem startWall localOffset tz interval).recorded
      (segmentLength_le (by norm_num) interval)
  have hm : MetadataOf .empty stem opened := hopened ▸ metadataOf_opened _ _ _ _ _
  have hI : Leaves decoder stem interval .empty d d :=
    ⟨.finished (.inl ⟨rfl, hnone⟩), Apart.refl stem d⟩
  have hw₁ : NamesWithin stem [incompleteMetaName stem] d₁ := h₁ ▸ hnone.insert _ _
  have hw₂ : NamesWithin stem [incompleteName stem, incompleteMetaName stem] d₂ :=
    h₂ ▸ hw₁.insert _ _
  have hw₃ : NamesWithin stem [incompleteName stem, incompleteMetaName stem] d₃ :=
    h₃ ▸ hw₂.insert_mem (by simp) _
  have ha₁ : Apart stem d d₁ := h₁ ▸ (Apart.refl stem d).insert .incompleteMeta _
  have ha₂ : Apart stem d d₂ := h₂ ▸ ha₁.insert .incomplete _
  have ha₃ : Apart stem d d₃ := h₃ ▸ ha₂.insert .incompleteMeta _
  have hmeta₁ : d₁[OsName.str (incompleteMetaName stem)]? = some (.file (.metadata creating)) :=
    h₁ ▸ Table.get_insert_self _ _ _
  have hdir₁ : d₁[OsName.str (incompleteName stem)]? = none := by
    rw [← h₁, createdMeta, Table.get_insert_ne (incomplete_ne_meta _ _).symm, hfree.1]
  have hmeta₂ : d₂[OsName.str (incompleteMetaName stem)]? = some (.file (.metadata creating)) := by
    rw [← h₂, createdDir, Table.get_insert_ne (incomplete_ne_meta _ _), hmeta₁]
  have hdir₂ : d₂[OsName.str (incompleteName stem)]? = some (.directory ∅) :=
    h₂ ▸ Table.get_insert_self _ _ _
  have hmeta₃ : d₃[OsName.str (incompleteMetaName stem)]? = some (.file (.metadata opened)) :=
    h₃ ▸ Table.get_insert_self _ _ _
  have hdir₃ : d₃[OsName.str (incompleteName stem)]? = some (.directory ∅) := by
    rw [← h₃, createdMeta, Table.get_insert_ne (incomplete_ne_meta _ _).symm, hdir₂]
  have hconsistent : metadataIsConsistent creating stem = true := hcreating ▸ consistent_initial hstem
  have hconfirms : confirmsEmpty creating = true := by
    rw [← hcreating]
    rfl
  have hlog : SegmentLog.empty.WellFormed decoder := wellFormed_empty
  have hI₃ : Leaves decoder stem interval .empty d d₃ :=
    ⟨.stub rfl (metadataIsConsistent_of_log hstem hlog hm hrecorded)
      ((confirmsEmpty_of_log hm).mpr rfl) (.inr hdir₃) hmeta₃ hw₃, ha₃⟩
  refine endsIn_create hfree hcreating.symm hopened.symm h₁.symm h₂.symm h₃.symm hI
    ⟨.stub rfl hconsistent hconfirms (.inl hdir₁) hmeta₁ (hw₁.mono (by simp)), ha₁⟩
    ⟨.stub rfl hconsistent hconfirms (.inr hdir₂) hmeta₂ hw₂, ha₂⟩ hI₃ ⟨hI₃, ?_⟩
  have hrecords : Records decoder stem d₃ (.initial stem opened startMonotonic interval) .empty ∅ := by
    rw [← h₃, ← h₂, ← hopened]
    exact records_created decoder
  exact .writing rfl hrecords hrecorded hw₃

end Create

/-! ## Closing -/

section Renamed

variable {decoder : Decoder} {stem : Str} {interval elapsed : ℕ} {log : SegmentLog}
  {m : SegmentMetadata} {members : SegmentDir} {d : StreamDir}

theorem NamesWithin.erase_none {names : List Str} {name : Str}
    (h : NamesWithin stem (names ++ [name]) d) (hnone : d[OsName.str name]? = none) :
    NamesWithin stem names d := by
  rw [← Table.erase_of_get_none hnone]
  exact h.erase

theorem Renamed.remnant (h : Renamed stem m members d) (nonempty : log ≠ .empty)
    (wellFormed : log.WellFormed decoder) (metadata : MetadataOf log stem m)
    (recorded : m.finalizedDir = finalizedName stem m.elapsedNanos)
    (name : m.finalizedDir = closedName stem interval elapsed) (holds : HoldsLog log stem members) :
    Remnant decoder stem interval log d := by
  rcases h.metaFile with hmeta | ⟨hnone, hzone⟩
  · exact .renamed nonempty wellFormed metadata recorded name holds h.source hmeta h.segment h.plain
      h.within
  · refine .finished (.inr ⟨nonempty, elapsed, members, holds, ?_, ?_, ?_⟩)
    · rw [← name, h.segment]
    · rwa [← name]
    · rw [← name]
      exact h.within.erase_none hnone

/-- Writing the final metadata again. -/
theorem Renamed.rewritten (h : Renamed stem m members d) (names : CloseNames stem m.finalizedDir) :
    Renamed stem m members (createdMeta stem m d) where
  source := by
    rw [createdMeta, Table.get_insert_ne (incomplete_ne_meta _ _).symm, h.source]
  segment := by
    rw [createdMeta, Table.get_insert_ne names.finalized_meta.symm, h.segment]
  metaFile := .inl (Table.get_insert_self _ _ _)
  plain := by
    intro node hnode
    rw [createdMeta, Table.get_insert_ne names.zone_meta.symm] at hnode
    exact h.plain node hnode
  within := h.within.insert_mem (by simp) _

/-- From the rename on. -/
theorem CloseStage.renamed_or_before
    (within : NamesWithin stem [incompleteName stem, incompleteMetaName stem] d)
    (recorded : m.finalizedDir = finalizedName stem m.elapsedNanos) (stage : CloseStage) :
    stage = .before ∨ stage = .recorded ∨ Renamed stem m members (stage.dir stem m members d) := by
  have names : CloseNames stem m.finalizedDir := recorded ▸ closeNames _ _
  have hnoZone : d[captureTimePath m.finalizedDir]? = none := by
    rw [recorded]
    refine within.get_none (.zone _) fun hmem => ?_
    rw [← recorded] at hmem
    rcases List.mem_pair.mp hmem with heq | heq
    · exact names.zone_incomplete (congrArg OsName.str heq)
    · exact names.zone_meta (congrArg OsName.str heq)
  have hmeta : (renamed.dir stem m members d)[OsName.str (incompleteMetaName stem)]? =
      some (.file (.metadata m)) := by
    rw [dir, renamedDir, Table.get_insert_ne names.finalized_meta,
      Table.get_erase_ne (incomplete_ne_meta _ _), createdMeta, Table.get_insert_self]
  have hrenamed : Renamed stem m members (renamed.dir stem m members d) :=
    { source := by
        rw [dir, renamedDir, Table.get_insert_ne names.finalized_incomplete, Table.get_erase_self]
      segment := Table.get_insert_self _ _ _
      metaFile := .inl hmeta
      plain := by
        intro node hnode
        rw [dir, renamedDir, Table.get_insert_ne names.zone_finalized.symm,
          Table.get_erase_ne names.zone_incomplete.symm, createdMeta,
          Table.get_insert_ne names.zone_meta.symm, hnoZone] at hnode
        cases hnode
      within := within.renamedDir }
  have hzone : PlainTarget (zonedDir m (renamed.dir stem m members d))
      (captureTimePath m.finalizedDir) := by
    intro node hnode
    rw [zonedDir, Table.get_insert_self] at hnode
    cases hnode
    rfl
  have hzoned : Renamed stem m members (zoned.dir stem m members d) :=
    { source := by
        rw [dir, zonedDir, Table.get_insert_ne names.zone_incomplete]
        exact hrenamed.source
      segment := by
        rw [dir, zonedDir, Table.get_insert_ne names.zone_finalized]
        exact hrenamed.segment
      metaFile := .inl (by
        rw [dir, zonedDir, Table.get_insert_ne names.zone_meta]
        exact hmeta)
      plain := hzone
      within := hrenamed.within.insert_mem (by simp) _ }
  cases stage with
  | before => exact .inl rfl
  | recorded => exact .inr (.inl rfl)
  | renamed => exact .inr (.inr hrenamed)
  | zoned => exact .inr (.inr hzoned)
  | settled =>
    refine .inr (.inr ⟨?_, ?_, .inr ⟨?_, ?_⟩, ?_, ?_⟩)
    · rw [dir, Table.get_erase_ne (incomplete_ne_meta _ _).symm]
      exact hzoned.source
    · exact settled_finalized names
    · exact (settled_open names).2
    · exact ⟨_, settled_zone names⟩
    · intro node hnode
      rw [dir, Table.get_erase_ne names.zone_meta.symm] at hnode
      exact hzone node hnode
    · exact within.renamedDir.settled.mono (by simp)

end Renamed

/-- How closing a segment at a time may end. -/
inductive ClosingEnds (decoder : Decoder) (stem : Str) (interval later : ℕ) (log : SegmentLog)
    (base : StreamDir) (due : Prop) :
    Ended Empty (SegmentState × Except SegmentError SegmentClose) → StreamDir → Prop
  | killed {d : StreamDir} (leaves : Leaves decoder stem interval log base d) :
      ClosingEnds decoder stem interval later log base due .killed d
  | failed {d : StreamDir} {seg : SegmentState} {e : SegmentError}
      (leaves : Leaves decoder stem interval log base d)
      (attends : due → Attends decoder stem interval later log d seg) :
      ClosingEnds decoder stem interval later log base due (.done (seg, .error e)) d
  | closed {d : StreamDir} {seg : SegmentState} {close : SegmentClose}
      (leaves : Leaves decoder stem interval log base d) (isClosed : seg.closed ≠ none) :
      ClosingEnds decoder stem interval later log base due (.done (seg, .ok close)) d

section Closing

variable {decoder : Decoder} {listing : Listing} {stem : Str} {interval now later : ℕ}
  {log : SegmentLog} {seg : SegmentState} {m : SegmentMetadata} {members : SegmentDir}
  {d : StreamDir}

theorem nonempty_iff : log ≠ .empty ↔ log.frames ≠ [] ∨ log.activity ≠ [] := by
  obtain ⟨frames, activity⟩ := log
  simp only [ne_eq, empty, mk.injEq, not_and_or]

/-- What is on the disk while a segment with a log is closed with metadata `m`. -/
theorem leaves_of_stage {m' : SegmentMetadata} {elapsed : ℕ} (nonempty : log ≠ .empty)
    (disk : OnDisk decoder stem log m' members d) (holds : HoldsLog log stem members)
    (within : NamesWithin stem [incompleteName stem, incompleteMetaName stem] d)
    (metadata : MetadataOf log stem m) (recorded : m.finalizedDir = finalizedName stem m.elapsedNanos)
    (name : m.finalizedDir = closedName stem interval elapsed) (stage : CloseStage) :
    Leaves decoder stem interval log d (stage.dir stem m members d) where
  remnant := by
    have hstages : stage = .before ∨ stage = .recorded ∨
        Renamed stem m members (stage.dir stem m members d) := CloseStage.renamed_or_before within recorded stage
    rcases hstages with rfl | rfl | hrenamed
    · exact .open_ nonempty disk holds within
    · refine .open_ nonempty ⟨disk.wellFormed, metadata, recorded, ?_, Table.get_insert_self _ _ _⟩ holds
        (within.insert_mem (by simp) _)
      rw [CloseStage.dir, createdMeta, Table.get_insert_ne (incomplete_ne_meta _ _).symm, disk.source]
    · exact hrenamed.remnant nonempty disk.wellFormed metadata recorded name holds
  apart := by
    have hfin : SegmentName stem m.finalizedDir := recorded ▸ .finalized _
    have hzone : SegmentName stem (m.finalizedDir ++ ".zone.json".toList) := recorded ▸ .zone _
    have hrecorded : Apart stem d (createdMeta stem m d) := (Apart.refl stem d).insert .incompleteMeta _
    have hrenamed : Apart stem d (renamedDir stem m members (createdMeta stem m d)) :=
      (hrecorded.erase .incomplete).insert hfin _
    have hzoned : Apart stem d (zonedDir m (renamedDir stem m members (createdMeta stem m d))) :=
      hrenamed.insert hzone _
    cases stage with
    | before => exact Apart.refl stem d
    | recorded => exact hrecorded
    | renamed => exact hrenamed
    | zoned => exact hzoned
    | settled => exact hzoned.erase .incompleteMeta

/-- The metadata that a finalization settles. -/
theorem Closable.final (h : Closable stem d seg log members) (length : seg.segmentInterval = interval)
    (hinterval : interval < 2 ^ 64) (later : ℕ) :
    (seg.finalizing later).metadata.finalizedDir = closedName stem interval (seg.elapsed later) ∧
      (seg.finalizing later).metadata.finalizedDir =
        finalizedName stem (seg.finalizing later).metadata.elapsedNanos := by
  have hlength := lengthOf_finalizing h.metadata later
  rw [SegmentState.lengthAt, length] at hlength
  exact ⟨hlength.finalized, recorded_of_interval hlength hinterval⟩

/-- The state of a segment after a finalization that failed. -/
theorem Closable.attends_of_stage (h : Closable stem d seg log members)
    (length : seg.segmentInterval = interval) (hinterval : interval < 2 ^ 64)
    (nonempty : log ≠ .empty) {m' : SegmentMetadata} (disk : OnDisk decoder stem log m' members d)
    (holds : HoldsLog log stem members)
    (within : NamesWithin stem [incompleteName stem, incompleteMetaName stem] d)
    (due : seg.rotationDue later interval = true) (hm : m = (seg.finalizing later).metadata)
    {seg' : SegmentState} (hopen : StillOpen (seg.finalizing later) seg') (stage : CloseStage) :
    Attends decoder stem interval later log (stage.dir stem m members d) seg' := by
  have metadata : MetadataOf log stem m := hm ▸ metadataOf_finalizing h.metadata later
  obtain ⟨hname, recorded⟩ := h.final length hinterval later
  rw [← hm] at hname recorded
  have hsame : seg'.metadata = m ∧ seg'.startMonotonic = seg.startMonotonic ∧
      seg'.segmentInterval = interval ∧ seg'.incompleteDir = incompleteName stem ∧
      seg'.metadataPath = incompleteMetaName stem ∧ seg'.poisoned = false ∧ seg'.closed = none := by
    rcases hopen with rfl | rfl <;>
      exact ⟨hm.symm, rfl, length, h.incompleteDir, h.metadataPath, h.sound, h.isOpen⟩
  obtain ⟨hmeta, hstart, hint, hdir, hpath, hsound, hisOpen⟩ := hsame
  have hdue : seg'.rotationDue later interval = true := by
    rw [SegmentState.rotationDue, SegmentState.elapsed, hstart]
    exact due
  have hclosable {d' : StreamDir} (hsegment : segmentMembers d' (.str (incompleteName stem)) =
      some members) (hfile : ∃ c, d'[OsName.str (incompleteMetaName stem)]? = some (.file c)) :
      Closable stem d' seg' log members :=
    ⟨hsegment, hmeta ▸ metadata, hfile, hdir, hpath, hsound, hisOpen⟩
  have hstages : stage = .before ∨ stage = .recorded ∨
      Renamed stem m members (stage.dir stem m members d) := CloseStage.renamed_or_before within recorded stage
  rcases hstages with rfl | rfl | hrenamed
  · exact .ending hint hdue nonempty (hclosable h.segment h.metaFile) disk holds within
  · refine .ending hint hdue nonempty
      (hclosable ?_ ⟨_, Table.get_insert_self _ _ _⟩)
      ⟨disk.wellFormed, metadata, recorded, ?_, Table.get_insert_self _ _ _⟩ holds
      (within.insert_mem (by simp) _)
    · rw [CloseStage.dir, createdMeta, segmentMembers_insert_ne (incomplete_ne_meta _ _).symm,
        h.segment]
    · rw [CloseStage.dir, createdMeta, Table.get_insert_ne (incomplete_ne_meta _ _).symm,
        disk.source]
  · refine .stuck hdue nonempty disk.wellFormed (hmeta ▸ metadata) (hmeta ▸ recorded)
      (hmeta ▸ hname) holds (hmeta ▸ hrenamed) ?_ hdir hpath hsound hisOpen
    intro afterwards hle
    have hlate (t : ℕ) (ht : later ≤ t) : segmentLength (seg.elapsed t) interval =
        max (asSecs interval) 1 := by
      refine segmentLength_of_due ?_
      rw [SegmentState.rotationDue, decide_eq_true_eq] at due
      rw [SegmentState.elapsed] at due ⊢
      omega
    rw [SegmentState.finalizing, SegmentState.elapsed, hstart, hint, hmeta, hm,
      SegmentState.finalizing, length]
    simp only [recordLength]
    rw [show afterwards - seg.startMonotonic = seg.elapsed afterwards from rfl, hlate _ hle,
      hlate _ le_rfl]

/-- Closing a segment with a log that is still under its first name. -/
theorem Closable.finalize (h : Closable stem d seg log members)
    (length : seg.segmentInterval = interval) (hinterval : interval < 2 ^ 64)
    (nonempty : log ≠ .empty) {m' : SegmentMetadata} (disk : OnDisk decoder stem log m' members d)
    (holds : HoldsLog log stem members)
    (within : NamesWithin stem [incompleteName stem, incompleteMetaName stem] d) :
    wp anyTurn (seg.finalize listing later : Prog _ _ Empty _)
      (ClosingEnds decoder stem interval later log d (seg.rotationDue later interval = true)) d := by
  have metadata := metadataOf_finalizing h.metadata later
  obtain ⟨hname, recorded⟩ := h.final length hinterval later
  generalize hm : (seg.finalizing later).metadata = m at metadata hname recorded
  have hleaves := leaves_of_stage nonempty disk holds within metadata recorded hname
  refine wp_finalize h (nonempty_iff.mp nonempty) hm.symm (fun _ stage _ => .killed (hleaves stage))
    (fun _ stage _ seg' e hopen => .failed (hleaves stage) fun due =>
      h.attends_of_stage length hinterval nonempty disk holds within due hm.symm hopen stage)
    fun _ seg' hclosed => .closed (hleaves .settled) (by rw [hclosed]; exact Option.some_ne_none _)

/-- Where the segment's directory has its final name already, closing the segment again fails. -/
theorem Renamed.finalize {elapsed : ℕ} (h : Renamed stem seg.metadata members d)
    (nonempty : log ≠ .empty) (wellFormed : log.WellFormed decoder)
    (metadata : MetadataOf log stem seg.metadata)
    (recorded : seg.metadata.finalizedDir = finalizedName stem seg.metadata.elapsedNanos)
    (name : seg.metadata.finalizedDir = closedName stem interval elapsed)
    (holds : HoldsLog log stem members)
    (final : ∀ t, now ≤ t → (seg.finalizing t).metadata = seg.metadata) (hle : now ≤ later)
    (incompleteDir : seg.incompleteDir = incompleteName stem)
    (metadataPath : seg.metadataPath = incompleteMetaName stem) (sound : seg.poisoned = false)
    (isOpen : seg.closed = none) :
    wp anyTurn (seg.finalize listing later : Prog _ _ Empty _)
      (ClosingEnds decoder stem interval later log d (seg.rotationDue later interval = true)) d := by
  have names : CloseNames stem seg.metadata.finalizedDir := recorded ▸ closeNames _ _
  have hsame := final later hle
  have hwritten := h.rewritten names
  have hleaves {d' : StreamDir} (hrenamed : Renamed stem seg.metadata members d')
      (hapart : Apart stem d d') : Leaves decoder stem interval log d d' :=
    ⟨hrenamed.remnant nonempty wellFormed metadata recorded name holds, hapart⟩
  have hbefore := hleaves h (Apart.refl stem d)
  have hafter := hleaves hwritten ((Apart.refl stem d).insert .incompleteMeta _)
  have hfailed {d' : StreamDir} (hrenamed : Renamed stem seg.metadata members d')
      (hapart : Leaves decoder stem interval log d d') {seg' : SegmentState}
      (hopen : StillOpen (seg.finalizing later) seg') (e : SegmentError) :
      ClosingEnds decoder stem interval later log d (seg.rotationDue later interval = true)
        (.done (seg', .error e) : Ended Empty _) d' := by
    refine .failed hapart fun due => ?_
    have hfinal : ∀ t, later ≤ t → (seg'.finalizing t).metadata = seg'.metadata := by
      intro t ht
      have hagain : (({ seg with metadata := seg.metadata } : SegmentState).finalizing t).metadata =
          seg.metadata := final t (hle.trans ht)
      rw [← hsame] at hagain
      rcases hopen with rfl | rfl <;> exact hagain
    rcases hopen with rfl | rfl <;>
      exact .stuck due nonempty wellFormed (hsame ▸ metadata) (hsame ▸ recorded) (hsame ▸ name) holds
        (hsame ▸ hrenamed) hfinal incompleteDir metadataPath sound isOpen
  have hempty : ¬ (!seg.metadata.hasDurableFrames && seg.metadata.activityDurableOffset = 0) =
      true := by
    rw [metadata.hasFrames, metadata.activity]
    rcases nonempty_iff.mp nonempty with hne | hne <;> simp [List.length_pos_iff, hne]
  have hsteps : wp anyTurn (seg.finalizing later).withoutHandles.finalizeSteps
      (fun r d' => (∃ e, r = .raised e) ∧ d' = createdMeta stem seg.metadata d ∨
        r = .killed ∧ d' = createdMeta stem seg.metadata d) (createdMeta stem seg.metadata d) := by
    have hrename : wp anyTurn (seg.finalizing later).withoutHandles.renameSteps
        (fun r d' => (∃ e, r = .raised e) ∧ d' = createdMeta stem seg.metadata d ∨
          r = .killed ∧ d' = createdMeta stem seg.metadata d) (createdMeta stem seg.metadata d) := by
      rw [SegmentState.renameSteps, wp_bind,
        show (seg.finalizing later).withoutHandles.incompleteDir = incompleteName stem from
          incompleteDir]
      have hgone : renamed (.str (incompleteName stem))
          (.str (seg.finalizing later).withoutHandles.metadata.finalizedDir)
          (createdMeta stem seg.metadata d) = (.error .notFound, createdMeta stem seg.metadata d) := by
        rw [renamed, hwritten.source]
      exact wp_call_atomic_error hgone (.inl ⟨⟨_, rfl⟩, rfl⟩) (fun _ => .inl ⟨⟨_, rfl⟩, rfl⟩)
        fun _ => .inr ⟨rfl, rfl⟩
    rw [SegmentState.finalizeSteps, wp_bind, entryVisible,
      show (seg.finalizing later).withoutHandles.metadata = seg.metadata from hsame]
    refine wp_glance ?_ (fun _ => ?_) fun _ => .inr ⟨rfl, rfl⟩
    · rw [andThen_done, hwritten.segment]
      exact .inl ⟨⟨_, rfl⟩, rfl⟩
    · rw [andThen_done, if_neg (by simp)]
      exact hrename
  rw [SegmentState.finalize, isOpen]
  dsimp only
  rw [if_neg (by simp [sound]), if_neg hempty, wp_bind, wp_attempt, atomicWriteMetadata, hsame,
    show (seg.finalizing later).metadataPath = incompleteMetaName stem from metadataPath]
  refine wp_atomicWriteBytes (fun _ => ?_) (fun _ e => hfailed h hbefore (.inl rfl) _)
    (fun _ _ e => hfailed hwritten hafter (.inl rfl) _) (fun _ => .killed hbefore)
    fun _ _ => .killed hafter
  rw [attempted_done, andThen_done, wp_bind, wp_attempt, wp_rethrow]
  refine wp_syncHandles ?_ (fun _ e => hfailed hwritten hafter (.inr rfl) _) fun _ => .killed hafter
  rw [mapRaised, attempted_done, andThen_done, wp_bind, wp_attempt]
  refine wp_mono hsteps fun r d' hr => ?_
  rcases hr with ⟨⟨e, rfl⟩, rfl⟩ | ⟨rfl, rfl⟩
  · exact hfailed hwritten hafter (.inr rfl) e
  · exact .killed hafter

/-! ### Empty segments -/

section Empty

variable {A : Turn → Prop} {d₁ d₂ : StreamDir}

theorem endsIn_syncHandles {storage : FileStorage} {I : StreamDir → Prop} (h : I d) :
    wp A storage.syncHandles (endsIn I fun _ s => s = d) d :=
  wp_syncHandles rfl (fun _ _ => h) fun _ => h

/-- The steps of the removal of a segment without members. -/
theorem endsIn_removeEmptySteps {c : Contents} (hdir : seg.incompleteDir = incompleteName stem)
    (hpath : seg.metadataPath = incompleteMetaName stem)
    (hsource : d[OsName.str (incompleteName stem)]? = some (.directory ∅))
    (hmeta : d[OsName.str (incompleteMetaName stem)]? = some (.file c))
    (h₁ : d₁ = d.erase (.str (incompleteName stem)))
    (h₂ : d₂ = d₁.erase (.str (incompleteMetaName stem))) :
    wp A (SegmentState.removeEmptySteps listing seg)
      (endsIn (fun s => s = d ∨ s = d₁ ∨ s = d₂) fun _ s => s = d₂) d := by
  have hmeta₁ : d₁[OsName.str (incompleteMetaName stem)]? = some (.file c) := by
    rw [h₁, Table.get_erase_ne (incomplete_ne_meta _ _), hmeta]
  rw [SegmentState.removeEmptySteps, hdir, hpath]
  refine endsIn_bind (endsIn_rethrow (endsIn_syncHandles (.inl rfl))) ?_
  rintro - s rfl
  refine endsIn_bind (endsIn_call_query (P := fun names s' => names = [] ∧ s' = s) (.inl rfl) ?_) ?_
  · intro names hnames
    rw [segmentMembers_eq_some.mpr hsource] at hnames
    exact ⟨(Except.ok.inj hnames).symm.trans listing.order_empty, rfl⟩
  rintro _ _ ⟨rfl, rfl⟩
  rw [forEach, Prog.bind]
  refine endsIn_bind (endsIn_call_atomic (P := fun _ s => s = d₁) (.inl rfl) ?_ ?_) ?_
  · rintro - -
    rw [withoutDir_of_empty hsource, h₁]
  · intro k hk
    rw [withoutDir_of_empty hsource] at hk
    cases hk
  rintro - s rfl
  refine endsIn_bind (endsIn_rethrow (endsIn_call_barrier (P := fun _ s' => s' = s)
    (.inr (.inl rfl)) rfl)) ?_
  rintro - s rfl
  refine endsIn_bind (endsIn_call_atomic (P := fun _ s => s = d₂) (.inr (.inl rfl)) ?_ ?_) ?_
  · rintro - -
    rw [unlinked_of_file hmeta₁, h₂]
  · intro k hk
    rw [unlinked_of_file hmeta₁] at hk
    cases hk
  rintro - s rfl
  exact endsIn_bind (endsIn_rethrow (endsIn_call_barrier (P := fun _ s' => s' = s)
    (.inr (.inr rfl)) rfl)) fun _ _ h => h

/-- Without its directory the removal fails. -/
theorem endsIn_removeEmptySteps_gone (hdir : seg.incompleteDir = incompleteName stem)
    (hsource : d[OsName.str (incompleteName stem)]? = none) :
    wp A (SegmentState.removeEmptySteps listing seg) (endsIn (fun s => s = d) fun _ _ => False) d := by
  rw [SegmentState.removeEmptySteps, hdir]
  refine endsIn_bind (endsIn_rethrow (endsIn_syncHandles rfl)) ?_
  rintro - s rfl
  refine endsIn_bind (endsIn_call_query (P := fun _ _ => False) rfl fun names hnames => ?_)
    fun _ _ h => h.elim
  rw [segmentMembers, hsource] at hnames
  cases hnames

/-- A finalization of a segment to which nothing was appended removes it. -/
theorem finalize_of_empty (metadata : MetadataOf .empty stem seg.metadata)
    (sound : seg.poisoned = false) (isOpen : seg.closed = none) :
    (seg.finalize listing later : Prog _ _ Empty _) =
      (SegmentState.removeEmptySteps listing seg).attempt.bind fun answer =>
        done (seg.withoutHandles.closing answer) := by
  have hsessions : seg.metadata.sessions.vals = [] := by
    refine List.eq_nil_iff_forall_not_mem.mpr fun session hs => ?_
    have := mem_vals_of_log metadata hs
    cases this
  have hframes : seg.metadata.hasDurableFrames = false := metadata.hasFrames
  have hactivity : seg.metadata.activityDurableOffset = 0 := metadata.activity
  have hcount : seg.metadata.durableFrameCount = 0 := metadata.count
  rw [SegmentState.finalize, isOpen]
  dsimp only
  rw [if_neg (by simp [sound]), if_pos (by simp [hframes, hactivity]),
    SegmentState.removeConfirmedEmpty, isOpen]
  dsimp only
  rw [if_neg (by simp [hframes, hactivity, hcount, hsessions])]

theorem SegmentLog.MembersOf.eq_empty (h : MembersOf .empty stem members) : members = ∅ := by
  refine Table.ext fun name => ?_
  rw [Table.get_empty]
  cases hnode : members[name]? with
  | none => rfl
  | some node =>
    rcases h.only name node hnode with ⟨p, hp, -⟩ | rfl
    · cases hp
    · rw [h.activity] at hnode
      cases hnode

theorem Records.withoutHandles (h : Records decoder stem d seg log members) :
    Records decoder stem d seg.withoutHandles log members :=
  { h with handles := fun _ hf => absurd hf List.not_mem_nil }

/-- Closing a segment to which nothing was appended. -/
theorem Records.finalize_empty (hstem : validTimeName stem = true)
    (length : seg.segmentInterval = interval) (records : Records decoder stem d seg .empty members)
    (recorded : seg.metadata.finalizedDir = finalizedName stem seg.metadata.elapsedNanos)
    (within : NamesWithin stem [incompleteName stem, incompleteMetaName stem] d) :
    wp anyTurn (seg.finalize listing later : Prog _ _ Empty _)
      (ClosingEnds decoder stem interval later .empty d (seg.rotationDue later interval = true)) d := by
  have hsource := segmentMembers_eq_some.mp records.segment
  rw [records.members.eq_empty] at hsource
  generalize h₁ : d.erase (.str (incompleteName stem)) = d₁
  generalize h₂ : d₁.erase (.str (incompleteMetaName stem)) = d₂
  have hdir₁ : d₁[OsName.str (incompleteName stem)]? = none := h₁ ▸ Table.get_erase_self _ _
  have hmeta₁ : d₁[OsName.str (incompleteMetaName stem)]? = some (.file (.metadata seg.metadata)) := by
    rw [← h₁, Table.get_erase_ne (incomplete_ne_meta _ _), records.onDisk]
  have hdir₂ : d₂[OsName.str (incompleteName stem)]? = none := by
    rw [← h₂, Table.get_erase_ne (incomplete_ne_meta _ _).symm, hdir₁]
  have hw₁ : NamesWithin stem [incompleteMetaName stem] d₁ := by
    rw [← h₁]
    exact (within.mono (by simp) : NamesWithin stem ([incompleteMetaName stem] ++
      [incompleteName stem]) d).erase
  have hw₂ : NamesWithin stem [] d₂ := by
    rw [← h₂]
    exact (hw₁ : NamesWithin stem ([] ++ [incompleteMetaName stem]) d₁).erase
  have ha₁ : Apart stem d d₁ := h₁ ▸ (Apart.refl stem d).erase .incomplete
  have ha₂ : Apart stem d d₂ := h₂ ▸ ha₁.erase .incompleteMeta
  have hconsistent := metadataIsConsistent_of_log hstem records.wellFormed records.metadata recorded
  have hconfirms := (confirmsEmpty_of_log records.metadata).mpr rfl
  have hfinished : Finished stem interval .empty d₂ := .inl ⟨rfl, hw₂⟩
  have hleaves : ∀ s, s = d ∨ s = d₁ ∨ s = d₂ → Leaves decoder stem interval .empty d s := by
    rintro s (rfl | rfl | rfl)
    · exact ⟨.stub rfl hconsistent hconfirms (.inr hsource) records.onDisk within, Apart.refl stem s⟩
    · exact ⟨.stub rfl hconsistent hconfirms (.inl hdir₁) hmeta₁ (hw₁.mono (by simp)), ha₁⟩
    · exact ⟨.finished hfinished, ha₂⟩
  have hattends : ∀ s, s = d ∨ s = d₁ ∨ s = d₂ → seg.rotationDue later interval = true →
      Attends decoder stem interval later .empty s seg.withoutHandles := by
    rintro s (rfl | rfl | rfl) hdue
    · exact .serving (.writing length records.withoutHandles recorded within)
    · exact .removing hdue rfl records.metadata hdir₁ records.incompleteDir records.sound
        records.isOpen
    · exact .removing hdue rfl records.metadata hdir₂ records.incompleteDir records.sound
        records.isOpen
  rw [finalize_of_empty records.metadata records.sound records.isOpen, wp_bind]
  refine wp_mono (endsIn_attempt (endsIn_removeEmptySteps records.incompleteDir records.metadataPath
    hsource records.onDisk h₁.symm h₂.symm)) fun r s hr => ?_
  cases r with
  | killed => exact .killed (hleaves s hr)
  | raised e => exact e.elim
  | done answer =>
    cases answer with
    | error e => exact .failed (hleaves s hr) (hattends s hr)
    | ok close =>
      obtain rfl : s = d₂ := hr
      exact .closed (hleaves s (.inr (.inr rfl))) (Option.some_ne_none _)

end Empty

/-! ### Any segment -/

/-- What a process leaves that ends while a segment is written. -/
theorem Records.remnant (hstem : validTimeName stem = true)
    (h : Records decoder stem d seg log members)
    (recorded : seg.metadata.finalizedDir = finalizedName stem seg.metadata.elapsedNanos)
    (within : NamesWithin stem [incompleteName stem, incompleteMetaName stem] d) :
    Remnant decoder stem interval log d := by
  have hsource := segmentMembers_eq_some.mp h.segment
  by_cases hempty : log = .empty
  · subst hempty
    rw [h.members.eq_empty] at hsource
    exact .stub rfl (metadataIsConsistent_of_log hstem h.wellFormed h.metadata recorded)
      ((confirmsEmpty_of_log h.metadata).mpr rfl) (.inr hsource) h.onDisk within
  · exact .open_ hempty ⟨h.wellFormed, h.metadata, recorded, hsource, h.onDisk⟩ h.members.holdsLog
      within

/-- **Closing a segment**, whichever of its calls fails or is the last: what is left is a stage of
the segment, and a segment that is due and was not closed is attended again. -/
theorem Attends.finalize (hstem : validTimeName stem = true) (hinterval : interval < 2 ^ 64)
    (hle : now ≤ later) (hremnant : Remnant decoder stem interval log d)
    (h : Attends decoder stem interval now log d seg) :
    wp anyTurn (seg.finalize listing later : Prog _ _ Empty _)
      (ClosingEnds decoder stem interval later log d (seg.rotationDue later interval = true)) d := by
  cases h with
  | serving serving =>
    cases serving with
    | @writing members length records recorded within =>
      by_cases hempty : log = .empty
      · subst hempty
        exact records.finalize_empty hstem length recorded within
      · exact records.closable.finalize length hinterval hempty
          ⟨records.wellFormed, records.metadata, recorded,
            segmentMembers_eq_some.mp records.segment, records.onDisk⟩
          records.members.holdsLog within
    | closed isClosed =>
      obtain ⟨close, hclose⟩ := Option.ne_none_iff_exists'.mp isClosed
      rw [SegmentState.finalize, hclose]
      exact .closed ⟨hremnant, Apart.refl stem d⟩ isClosed
  | ending length due nonempty closable disk holds within =>
    exact closable.finalize length hinterval nonempty disk holds within
  | stuck due nonempty wellFormed metadata recorded name holds renamed final incompleteDir metadataPath
      sound isOpen =>
    exact renamed.finalize nonempty wellFormed metadata recorded name holds final hle incompleteDir
      metadataPath sound isOpen
  | removing due empty metadata source incompleteDir sound isOpen =>
    subst empty
    have hleaves : Leaves decoder stem interval .empty d d := ⟨hremnant, Apart.refl stem d⟩
    rw [finalize_of_empty metadata sound isOpen, wp_bind]
    refine wp_mono (endsIn_attempt (endsIn_removeEmptySteps_gone incompleteDir source))
      fun r s hr => ?_
    cases r with
    | killed =>
      obtain rfl : s = d := hr
      exact .killed hleaves
    | raised e => exact e.elim
    | done answer =>
      cases answer with
      | ok close => exact False.elim hr
      | error e =>
        obtain rfl : s = d := hr
        exact .failed hleaves fun due =>
          .removing due rfl metadata source incompleteDir sound isOpen

/-- A segment whose closing failed is due from then on. -/
theorem Attends.serving_of_not_due (hle : now ≤ later)
    (h : Attends decoder stem interval now log d seg) (hdue : seg.rotationDue later interval = false) :
    Serving decoder stem interval log d seg := by
  have hnot : seg.rotationDue now interval = true → False := by
    rw [SegmentState.rotationDue, decide_eq_false_iff_not] at hdue
    rw [SegmentState.rotationDue, decide_eq_true_eq]
    simp only [SegmentState.elapsed] at hdue ⊢
    omega
  cases h with
  | serving serving => exact serving
  | ending _ due => exact (hnot due).elim
  | stuck due => exact (hnot due).elim
  | removing due => exact (hnot due).elim

end Closing

/-! ## Appending -/

section Append

variable {decoder : Decoder} {hash : Str → UInt64} {stem : Str} {interval now : ℕ} {log : SegmentLog}
  {seg : SegmentState} {members : SegmentDir} {d : StreamDir}

theorem Records.apart_appended (h : Records decoder stem d seg log members) (filename : Str)
    (b : Bytes) (m : SegmentMetadata) :
    Apart stem d (seg.storage.appended d members filename b m) := by
  rw [FileStorage.appended, FileStorage.withFile, h.storageDir, h.storageMeta]
  exact ((Apart.refl stem d).insert .incomplete _).insert .incompleteMeta _

theorem Records.within_appended (h : Records decoder stem d seg log members)
    (within : NamesWithin stem [incompleteName stem, incompleteMetaName stem] d) (filename : Str)
    (b : Bytes) (m : SegmentMetadata) :
    NamesWithin stem [incompleteName stem, incompleteMetaName stem]
      (seg.storage.appended d members filename b m) := by
  rw [FileStorage.appended, FileStorage.withFile, h.storageDir, h.storageMeta]
  exact (within.insert_mem (by simp) _).insert_mem (by simp) _

/-- The log after the answer of `append_capture`. -/
def appendedLog (log : SegmentLog) (capture : CaptureResult) (timestamp : F64Text) :
    Except SegmentError AppendOutcome → SegmentLog
  | .ok (.appended frameId) => log.addFrame (reportedFrame capture frameId timestamp)
  | _ => log

/-- The log after the answer of `append_activity`. -/
def activityLog (log : SegmentLog) (bytes : Bytes) : Except SegmentError Unit → SegmentLog
  | .ok () => log.addActivity bytes
  | .error _ => log

/-- **An append whose calls work records what it reports.** -/
theorem Serving.appendCapture (hstem : validTimeName stem = true) (hinterval : interval < 2 ^ 64)
    (hremnant : Remnant decoder stem interval log d)
    (h : Serving decoder stem interval log d seg) (capture : CaptureResult) (timestamp : F64Text) :
    ∃ seg' answer d', run [] (seg.appendCapture hash capture timestamp now : Prog _ _ Empty _) d =
        (.done (seg', answer), d') ∧
      Leaves decoder stem interval (appendedLog log capture timestamp answer) d d' ∧
      Serving decoder stem interval (appendedLog log capture timestamp answer) d' seg' := by
  cases h with
  | @writing members length records recorded within =>
    have hwp : wp allWork (seg.appendCapture hash capture timestamp now : Prog _ _ Empty _)
        (fun r d' => ∃ seg' answer, r = .done (seg', answer) ∧
          Leaves decoder stem interval (appendedLog log capture timestamp answer) d d' ∧
          Serving decoder stem interval (appendedLog log capture timestamp answer) d' seg') d := by
      have hsame (answer : Except SegmentError AppendOutcome)
          (hlog : appendedLog log capture timestamp answer = log) : ∃ seg' answer',
          (.done (seg, answer) : Ended Empty _) = .done (seg', answer') ∧
            Leaves decoder stem interval (appendedLog log capture timestamp answer') d d ∧
            Serving decoder stem interval (appendedLog log capture timestamp answer') d seg' := by
        refine ⟨seg, answer, rfl, ?_⟩
        rw [hlog]
        exact ⟨⟨hremnant, Apart.refl stem d⟩, .writing length records recorded within⟩
      refine wp_appendCapture records (hsame _ rfl) (fun _ => hsame _ rfl) ?_
        (fun _ _ _ _ hk => absurd hk not_canKill_allWork) (fun hk => absurd hk not_canKill_allWork)
        (fun hf => absurd hf not_canFail_allWork) (fun hf => absurd hf not_canFail_allWork)
      rintro n seg' d' hn hid htimed rfl hrec
      have hlength := htimed.length
      rw [SegmentState.lengthAt, length] at hlength
      have hrecorded := recorded_of_interval hlength hinterval
      have hwithin := records.within_appended within n.sessionFilename
        (log.bytesOf capture.session ++ (nextFrame log capture n timestamp).line) seg'.metadata
      refine ⟨⟨seg', _, rfl, ?_⟩, fun hk => absurd hk not_canKill_allWork⟩
      rw [appendedLog, ← nextFrame_eq_reportedFrame hn]
      exact ⟨⟨hrec.remnant hstem hrecorded hwithin, records.apart_appended _ _ _⟩,
        .writing (htimed.interval.trans length) hrec hrecorded hwithin⟩
    obtain ⟨seg', answer, hr, hserving⟩ := wp_run hwp rfl (by simp : ∀ t ∈ [], allWork t)
    exact ⟨seg', answer, _, Prod.ext hr rfl, hserving⟩
  | closed isClosed =>
    obtain ⟨close, hclose⟩ := Option.ne_none_iff_exists'.mp isClosed
    have hleaves : Leaves decoder stem interval log d d := ⟨hremnant, Apart.refl stem d⟩
    by_cases hpoisoned : seg.poisoned = true
    · refine ⟨seg, .error .poisoned, d, ?_, hleaves, .closed isClosed⟩
      rw [SegmentState.appendCapture, if_pos hpoisoned, run_done]
    · refine ⟨seg, .error .closed, d, ?_, hleaves, .closed isClosed⟩
      rw [SegmentState.appendCapture, if_neg hpoisoned, if_pos (by rw [hclose]; rfl), run_done]

theorem addActivity_nil (log : SegmentLog) : log.addActivity [] = log := by
  rw [addActivity, List.append_nil]

/-- **An append of activity whose calls work records it.** -/
theorem Serving.appendActivity (hstem : validTimeName stem = true) (hinterval : interval < 2 ^ 64)
    (hremnant : Remnant decoder stem interval log d)
    (h : Serving decoder stem interval log d seg) {bytes : Bytes} (lines : Complete newline bytes) :
    ∃ seg' answer d', run [] (seg.appendActivity bytes now : Prog _ _ Empty _) d =
        (.done (seg', answer), d') ∧
      Leaves decoder stem interval (activityLog log bytes answer) d d' ∧
      Serving decoder stem interval (activityLog log bytes answer) d' seg' := by
  cases h with
  | @writing members length records recorded within =>
    have hwp : wp allWork (seg.appendActivity bytes now : Prog _ _ Empty _)
        (fun r d' => ∃ seg' answer, r = .done (seg', answer) ∧
          Leaves decoder stem interval (activityLog log bytes answer) d d' ∧
          Serving decoder stem interval (activityLog log bytes answer) d' seg') d := by
      have hsame : Leaves decoder stem interval log d d ∧ Serving decoder stem interval log d seg :=
        ⟨⟨hremnant, Apart.refl stem d⟩, .writing length records recorded within⟩
      refine wp_appendActivity records lines ?_ ?_ ?_ (fun _ hk => absurd hk not_canKill_allWork)
        (fun hk => absurd hk not_canKill_allWork) (fun hf => absurd hf not_canFail_allWork)
        (fun hf => absurd hf not_canFail_allWork)
      · rintro rfl
        refine ⟨seg, _, rfl, ?_⟩
        rw [activityLog, addActivity_nil]
        exact hsame
      · exact fun e => ⟨seg, _, rfl, hsame⟩
      · rintro seg' d' hne htimed rfl hrec
        have hlength := htimed.length
        rw [SegmentState.lengthAt, length] at hlength
        have hrecorded := recorded_of_interval hlength hinterval
        have hwithin := records.within_appended within (activityFilename stem)
          (log.activity ++ bytes) seg'.metadata
        exact ⟨⟨seg', _, rfl,
          ⟨hrec.remnant hstem hrecorded hwithin, records.apart_appended _ _ _⟩,
          .writing (htimed.interval.trans length) hrec hrecorded hwithin⟩,
          fun hk => absurd hk not_canKill_allWork⟩
    obtain ⟨seg', answer, hr, hserving⟩ := wp_run hwp rfl (by simp : ∀ t ∈ [], allWork t)
    exact ⟨seg', answer, _, Prod.ext hr rfl, hserving⟩
  | closed isClosed =>
    obtain ⟨close, hclose⟩ := Option.ne_none_iff_exists'.mp isClosed
    have hleaves : Leaves decoder stem interval log d d := ⟨hremnant, Apart.refl stem d⟩
    by_cases hempty : bytes = []
    · refine ⟨seg, .ok (), d, ?_, ?_⟩
      · rw [SegmentState.appendActivity, if_pos (by simp [hempty]), run_done]
      · rw [activityLog, hempty, addActivity_nil]
        exact ⟨hleaves, .closed isClosed⟩
    by_cases hpoisoned : seg.poisoned = true
    · refine ⟨seg, .error .poisoned, d, ?_, hleaves, .closed isClosed⟩
      rw [SegmentState.appendActivity, if_neg (by simpa using hempty), if_pos hpoisoned, run_done]
    · refine ⟨seg, .error .closed, d, ?_, hleaves, .closed isClosed⟩
      rw [SegmentState.appendActivity, if_neg (by simpa using hempty), if_neg hpoisoned,
        if_pos (by rw [hclose]; rfl), run_done]

end Append

end SolstoneTmux
